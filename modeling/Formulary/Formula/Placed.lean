/-
# Formulas with their places

A formula that was read carries the span it was read from.  An infix operation covers its
operands, and a minus in front of an operand stands for a subtraction from a zero that has no
extent of its own.
-/
import Formulary.Formula.Basic
import Formulary.Operator

namespace Formulary

open Text

/-- A formula whose parts carry their spans. -/
abbrev Formula.Placed := Formula Span Span Unit

/-- A definition that carries its span. -/
abbrev Definition.Placed := Definition Span Span Unit

/-- A set of definitions that carry their spans. -/
abbrev DefinitionSet.Placed := DefinitionSet Span Span Unit

/-- The definitions as a set without other formulas. -/
def DefinitionSet.ofDefinitions (ds : List Definition.Placed) : DefinitionSet.Placed :=
  .node () ds []

namespace Formula

/-- The operation of an infix operator on two operands. -/
def operation (operator : Located String) (left right : Placed) : Placed :=
  .node (left.note.hull right.note)
    (.call (.node operator.span (.name operator.value)) [left, right])

/-- A minus at `minus` in front of an operand. -/
def negation (minus : Span) (operand : Placed) : Placed :=
  operation ⟨"-", minus⟩ (.node (Span.point minus.start) (.number Binary64.zero)) operand

/-- How chains of formulas are put together. -/
def joining : Joining Placed := ⟨operation, Formula.note⟩

end Formula

end Formulary
