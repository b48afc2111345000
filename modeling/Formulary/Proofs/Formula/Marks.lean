/-
# What tokens and formulas hold

The names, the literals and the closures of a program, and the tokens that they are written with.
Tokens hold them at all depths, and so do formulas.  A minus in front of an operand subtracts from
a zero that no token was read for; it has no extent, and it does not count.
-/
import Mathlib.Tactic.Common
import Formulary.Grammar

namespace Formulary

open Text Word

/-- A name, a literal or a closure. -/
inductive Mark where
  | name (name : String)
  /-- A literal with its value, if it has one. -/
  | literal (value : Option Matrix)
  | closure
  /-- A number without extent, which no text is read as. -/
  | unplaced

namespace Mark

/-- The name, if it is one. -/
def name? : Mark → Option String
  | name n => some n
  | _ => none

/-- The value of a literal, if it is one. -/
def literal? : Mark → Option (Option Matrix)
  | literal value => some value
  | _ => none

/-- Whether it is a closure. -/
def isClosure : Mark → Bool
  | closure => true
  | _ => false

end Mark

/-! ## Tokens -/

namespace Token

mutual

/-- The tokens in a token that are not groups. -/
def leaves (span : Span) : Token → List (Located Token)
  | group _ tokens => listLeaves tokens
  | ident name raw => [⟨ident name raw, span⟩]
  | operator symbol => [⟨operator symbol, span⟩]
  | number whole fraction => [⟨number whole fraction, span⟩]
  | bool value => [⟨bool value, span⟩]
  | null => [⟨null, span⟩]
  | text value => [⟨text value, span⟩]
  | comma => [⟨comma, span⟩]
  | space => [⟨space, span⟩]
  | lineBreak => [⟨lineBreak, span⟩]

/-- The tokens of a row, those in groups included, that are not groups themselves. -/
def listLeaves : List (Located Token) → List (Located Token)
  | [] => []
  | ⟨token, span⟩ :: tokens => token.leaves span ++ listLeaves tokens

end

/-- The words that are names only in quotes although they are no literals. -/
def structuralWords : List String := ["where", "switch", "otherwise"]

/-- The operator characters that stand between the parts of a program. -/
def structuralSymbols : List String := [equalsSign, arrow, doubleArrow]

/-- The name that a token stands for. -/
def name? : Token → Option String
  | ident n raw => if !raw && structuralWords.contains n then none else some n
  | operator symbol => if structuralSymbols.contains symbol then none else some symbol
  | _ => none

/-- The value that the digits of a number stand for. -/
def numberMatrix? (whole : String) (fraction : Option String) : Option Matrix :=
  (Binary64.read? (whole.toList ++ '.' :: (fraction.getD "0").toList)).map Matrix.number

/-- The value that a token is a literal for. -/
def literal? : Token → Option (Option Matrix)
  | null => some (some .null)
  | bool value => some (some (.bool value))
  | number whole fraction => some (numberMatrix? whole fraction)
  | text value => some (some (.text value))
  | _ => none

/-- Whether a token stands between the parameters of a closure and its result. -/
def isArrow : Token → Bool
  | operator symbol => symbol == arrow
  | _ => false

/-- What a token holds.  An arrow stands for a closure and the name of its result. -/
def marks (t : Located Token) : List Mark :=
  if t.value.isArrow then [.closure, .name resultName]
  else if t.value matches number .. && t.span.isEmpty then [.unplaced]
  else (t.value.name?.map Mark.name).toList ++ (t.value.literal?.map Mark.literal).toList

end Token

/-! ## Formulas -/

mutual

/-- The values in a value that is written out in full, none of them an array. -/
def Matrix.scalars : Matrix → List Matrix
  | .array entries => Matrix.scalarsOf entries
  | .null => [.null]
  | .bool value => [.bool value]
  | .number value => [.number value]
  | .text value => [.text value]

/-- The values in values that are written out in full, none of them an array. -/
def Matrix.scalarsOf : List Matrix → List Matrix
  | [] => []
  | m :: ms => m.scalars ++ Matrix.scalarsOf ms

end

mutual

/-- What a formula holds. -/
def Formula.marks : Formula.Placed → List Mark
  | .node span shape => Shape.marks span shape

/-- What a first layer with the given span holds. -/
def Shape.marks (span : Span) : Shape Formula.Placed DefinitionSet.Placed → List Mark
  | .null => [.literal (some .null)]
  | .bool value => [.literal (some (.bool value))]
  | .number value => if span.isEmpty then [] else [.literal (some (.number value))]
  | .text value => [.literal (some (.text value))]
  | .name n => [.name n]
  | .call callee arguments => callee.marks ++ Formula.listMarks arguments
  | .list items => Formula.listMarks items
  | .matrix value => value.scalars.map fun m => .literal (some m)
  | .closure parameters body => .closure :: parameters.map .name ++ body.marks
  | .switch cases => Case.listMarks cases

/-- What formulas hold. -/
def Formula.listMarks : List Formula.Placed → List Mark
  | [] => []
  | f :: fs => f.marks ++ Formula.listMarks fs

/-- What the formulas of cases hold. -/
def Case.listMarks : List (Case Formula.Placed) → List Mark
  | [] => []
  | .when condition value :: cases => condition.marks ++ value.marks ++ Case.listMarks cases
  | .otherwise value :: cases => value.marks ++ Case.listMarks cases

/-- What definitions hold, their names included. -/
def Definition.listMarks : List Definition.Placed → List Mark
  | [] => []
  | .node _ n none :: ds => .name n :: Definition.listMarks ds
  | .node _ n (some value) :: ds => .name n :: value.marks ++ Definition.listMarks ds

/-- What a set holds. -/
def DefinitionSet.marks : DefinitionSet.Placed → List Mark
  | .node _ definitions floating => Definition.listMarks definitions ++ Formula.listMarks floating

end

namespace DefinitionSet

/-- The names in a program: those that are referred to, those that are defined and those of
parameters. -/
def names (p : DefinitionSet.Placed) : List String := p.marks.filterMap Mark.name?

/-- The values of the literals in a program. -/
def literals (p : DefinitionSet.Placed) : List (Option Matrix) := p.marks.filterMap Mark.literal?

/-- The number of closures in a program. -/
def closures (p : DefinitionSet.Placed) : Nat := p.marks.countP Mark.isClosure

end DefinitionSet

end Formulary
