/-
# Words and operators

How names, operators and keywords are spelled.  A name is bare if it consists of name
characters alone; any other text can still be a name, but has to be quoted.  Some words are
taken by the language and have to be quoted as well when they are meant as names.
-/
import Formulary.Text.Alphabetic

namespace Formulary.Word

open Text

/-- The characters that operators are made of. -/
def operatorChars : List Char :=
  ['+', '-', '*', '/', '\\', '|', '~', '!', '@', '#', '$', '%', '^', '&', '=', '<', '>']

/-- Whether a character can occur in an operator. -/
def isOperatorChar (c : Char) : Bool := operatorChars.contains c

/-- Whether a bare name can begin with a character. -/
def isNameStart (c : Char) : Bool := c == '_' || isAlphabetic c

/-- Whether a bare name can go on with a character. -/
def isNamePart (c : Char) : Bool := c == '_' || isAlphabetic c || isNumeric c

/-- Whether `s` consists of name characters, so that it needs no quotes unless it is
reserved. -/
def isBareName (s : String) : Bool :=
  match s.toList with
  | [] => false
  | c :: cs => isNameStart c && cs.all isNamePart

/-- The symbol between a name and what it stands for.  It is also the name of the definition
that holds the result of a closure. -/
def equalsSign : String := "="

/-- The symbol between the parameters of a closure and its result. -/
def arrow : String := "->"

/-- The symbol between the condition of a case and its value. -/
def doubleArrow : String := "=>"

/-- Whether `s` is an operator that can stand between two operands. -/
def isOperator (s : String) : Bool :=
  s ≠ "" && s.toList.all isOperatorChar && !([equalsSign, arrow, doubleArrow].contains s)

/-- The words and symbols that are names only in quotes. -/
def reserved : List String :=
  ["null", "yes", "no", "true", "false", "switch", "where", "otherwise",
    equalsSign, arrow, doubleArrow]

/-- Whether `s` is a name only in quotes. -/
def isReserved (s : String) : Bool := reserved.contains s

/-- A word that stands for a value. -/
inductive Keyword where
  /-- The absent value. -/
  | null
  /-- A truth value. -/
  | bool (value : Bool)
deriving DecidableEq, Repr

/-- The value that a word stands for, if it is a keyword. -/
def keyword? (s : String) : Option Keyword :=
  if s = "null" then some .null
  else if s = "yes" ∨ s = "true" then some (.bool true)
  else if s = "no" ∨ s = "false" then some (.bool false)
  else none

theorem keyword?_eq_null_iff {s : String} : keyword? s = some .null ↔ s = "null" := by
  grind [keyword?]

theorem keyword?_eq_true_iff {s : String} :
    keyword? s = some (.bool true) ↔ s = "yes" ∨ s = "true" := by
  grind [keyword?]

theorem keyword?_eq_false_iff {s : String} :
    keyword? s = some (.bool false) ↔ s = "no" ∨ s = "false" := by
  grind [keyword?]

theorem keyword?_eq_none_iff {s : String} :
    keyword? s = none ↔ s ∉ ["null", "yes", "no", "true", "false"] := by
  grind [keyword?]

end Formulary.Word
