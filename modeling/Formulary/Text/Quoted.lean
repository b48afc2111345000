/-
# Escaped and quoted text

A message or a description may hold any character, so some are spelled as escapes: control
characters, the backslash, the quotes that would end the quotation, characters that cannot be
seen and those that would attach to the character before them.  Which of these apply differs
from place to place; an `Escaping` says it, and the four spellings in use are named below.
-/
import Formulary.Text.Extender
import Formulary.Text.Printable

namespace Formulary.Text

/-- Which characters are escaped besides control characters, the backslash and characters that
are not printable. -/
structure Escaping where
  /-- Escape the apostrophe. -/
  apostrophe : Bool
  /-- Escape the double quote. -/
  quote : Bool
  /-- Escape characters that attach to the one before them. -/
  extender : Bool
deriving DecidableEq, Repr

/-- A character by its code point: a backslash, the letter u and the hexadecimal digits in
braces. -/
def codePointEscape (c : Char) : String :=
  "\\u\x7b" ++ String.ofList (Nat.toDigits 16 c.toNat) ++ "\x7d"

/-- The spelling of one character. -/
def Escaping.char (e : Escaping) (c : Char) : String :=
  if c = '\x00' then "\\0"
  else if c = '\t' then "\\t"
  else if c = '\r' then "\\r"
  else if c = '\n' then "\\n"
  else if c = '\\' then "\\\\"
  else if c = '"' && e.quote then "\\\""
  else if c = '\'' && e.apostrophe then "\\'"
  else if isExtender c && e.extender then codePointEscape c
  else if isPrintable c then c.toString
  else codePointEscape c

/-- The spelling of a text, each character on its own. -/
def Escaping.text (e : Escaping) (cs : List Char) : String :=
  String.join (cs.map e.char)

/-- Every escape is used. -/
def fullEscaping : Escaping := ⟨true, true, true⟩

/-- A single character in apostrophes. -/
def quotedChar (c : Char) : String :=
  "'" ++ Escaping.char ⟨true, false, true⟩ c ++ "'"

/-- A text in double quotes, in which an apostrophe stands for itself. -/
def quotedText (cs : List Char) : String :=
  "\"" ++ Escaping.text ⟨false, true, true⟩ cs ++ "\""

/-- A text in double quotes with every escape used. -/
def fullyQuotedText (cs : List Char) : String :=
  "\"" ++ fullEscaping.text cs ++ "\""

/-- A text without quotes around it: its first character has nothing before it to attach to
and is escaped if it would; in all others an attaching character stands for itself. -/
def escapedText : List Char → String
  | [] => ""
  | c :: cs => fullEscaping.char c ++ Escaping.text ⟨true, true, false⟩ cs

end Formulary.Text
