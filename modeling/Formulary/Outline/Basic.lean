/-
# Outlines

An outline shows a value with one part per line.  The value is first brought into a common form
of words, numbers, texts, lists and labelled records, and a style then decides how each of these
is set out.  Two styles are in use: the one of debugging descriptions, which shows every label
and breaks every line, and the one of records, which keeps the labels of alternatives only and
puts a wrapped value on the line of its label.
-/
import Formulary.Number.Written
import Formulary.Text.Quoted

namespace Formulary

open Text

/-- A value that can be outlined. -/
inductive Outline where
  /-- A word or a whole number. -/
  | word (text : String)
  /-- A number. -/
  | number (value : Binary64)
  /-- A text. -/
  | text (value : String)
  /-- A list. -/
  | list (items : List Outline)
  /-- A labelled value. -/
  | wrapped (label : String) (inner : Outline)
  /-- Named fields.  The label names one of several alternatives, or just the type. -/
  | record (alternative : Bool) (label : String) (fields : List (String × Outline))
deriving Repr

namespace Outline

/-- A whole number. -/
def nat (n : Nat) : Outline := .word (toString n)

/-- A truth value. -/
def bool (value : Bool) : Outline := .word (if value then "true" else "false")

/-- A value that may be missing. -/
def option : Option Outline → Outline
  | none => .word "None"
  | some inner => .wrapped "Some" inner

/-- How outlines are set out. -/
structure Style where
  /-- How numbers are written. -/
  number : NumberStyle
  /-- How texts are quoted. -/
  quote : List Char → String
  /-- What stands in front of the fields of a record. -/
  opening : Bool → String → String
  /-- What stands behind them. -/
  closing : String
  /-- Whether a wrapped value has lines of its own. -/
  breaksWrapped : Bool

/-- Debugging descriptions. -/
def Style.debug : Style where
  number := .debug
  quote := quotedText
  opening _ label := label ++ " \x7b"
  closing := "\x7d"
  breaksWrapped := true

/-- Records. -/
def Style.record : Style where
  number := .record
  quote := fullyQuotedText
  opening alternative label := if alternative then label ++ "(" else "("
  closing := ")"
  breaksWrapped := false

/-- The beginning of a line at a depth. -/
def indent (depth : Nat) : String := String.ofList (List.replicate (4 * depth) ' ')

/-- Parts between brackets, each on a line of its own. -/
def enclose (opening closing : String) (depth : Nat) (parts : List String) : String :=
  opening ++ "\n" ++ String.join (parts.map fun part => indent (depth + 1) ++ part ++ ",\n") ++
    indent depth ++ closing

mutual

/-- The text of an outline at a depth; its first line is not indented. -/
def render (style : Style) (depth : Nat) : Outline → String
  | .word w => w
  | .number x => x.write style.number
  | .text t => style.quote t.toList
  | .list [] => "[]"
  | .list (item :: items) =>
    enclose "[" "]" depth (render style (depth + 1) item :: renderAll style (depth + 1) items)
  | .wrapped label inner =>
    if style.breaksWrapped then
      enclose (label ++ "(") ")" depth [render style (depth + 1) inner]
    else label ++ "(" ++ render style depth inner ++ ")"
  | .record alternative label fields =>
    enclose (style.opening alternative label) style.closing depth
      (renderFields style (depth + 1) fields)

/-- The texts of outlines, one by one. -/
def renderAll (style : Style) (depth : Nat) : List Outline → List String
  | [] => []
  | item :: items => render style depth item :: renderAll style depth items

/-- The texts of fields, one by one. -/
def renderFields (style : Style) (depth : Nat) : List (String × Outline) → List String
  | [] => []
  | (name, value) :: fields =>
    (name ++ ": " ++ render style depth value) :: renderFields style depth fields

end

/-- The text of an outline, with its line ended. -/
def toText (style : Style) (outline : Outline) : String := render style 0 outline ++ "\n"

end Outline

end Formulary
