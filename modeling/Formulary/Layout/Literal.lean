/-
# Written names and literals

A name is written bare if it would be read back as that name, and in quotes otherwise.  Quotes
are marked with number signs: the name must not contain the closing quote with as many signs as
are used, and at least one sign is always used.  In a text only the backslash is escaped.
-/
import Formulary.Formula.Basic
import Formulary.Number.Written

namespace Formulary.Layout

open Word

/-- The number of number signs at the front of a text. -/
def leadingHashes (cs : List Char) : Nat := (cs.takeWhile (· == '#')).length

/-- The least number of number signs, one at least, such that the text does not contain a quote
followed by that many. -/
def closingHashes : List Char → Nat
  | [] => 1
  | c :: cs =>
    if c = '"' then max (leadingHashes cs + 1) (closingHashes cs) else closingHashes cs

/-- A name. -/
def name (n : String) : String :=
  if isBareName n && !isReserved n then n
  else
    let hashes := String.ofList (List.replicate (closingHashes n.toList) '#')
    "r" ++ hashes ++ "\"" ++ n ++ "\"" ++ hashes

/-- The characters of a text with every backslash doubled. -/
def doubleBackslashes (cs : List Char) : List Char :=
  cs.flatMap fun c => if c = '\\' then ['\\', '\\'] else [c]

/-- A text. -/
def text (value : String) : String :=
  "\"" ++ String.ofList (doubleBackslashes value.toList) ++ "\""

/-- A number. -/
def number (value : Binary64) : String := value.write .program

/-- A truth value. -/
def bool (value : Bool) : String := if value then "true" else "false"

/-- Elements separated by commas. -/
def commaSeparated (elements : List String) : String := ", ".intercalate elements

mutual

/-- A value that is written out in full. -/
def matrix : Matrix → String
  | .null => "null"
  | .bool value => bool value
  | .number value => number value
  | .text value => text value
  | .array entries => s!"[{commaSeparated (matrices entries)}]"

/-- The entries of an array, one by one. -/
def matrices : List Matrix → List String
  | [] => []
  | m :: ms => matrix m :: matrices ms

end

end Formulary.Layout
