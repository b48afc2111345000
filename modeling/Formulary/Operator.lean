/-
# Infix operators

Operands and infix operators are read as a flat chain and put together afterwards.  Every
operator belongs to a tier; the tiers are folded one after the other, the tightest first, and
within a tier operators group to the left.  Operators that the table does not know share the
loosest tier.

A chain is folded in one pass per tier.  The links passed so far are kept in reverse, so that
the operand to the left of an operator is at hand.
-/
import Formulary.Parsing.Failure

namespace Formulary

open Text Parsing

/-- How tightly an operator binds, from the loosest to the tightest. -/
inductive Tier where
  /-- Operators without a place in the table. -/
  | custom
  | or
  | and
  | equality
  | comparison
  | bitOr
  | bitAnd
  | shift
  | additive
  | multiplicative
  | power
deriving DecidableEq, Repr

namespace Tier

/-- The tiers in the order in which chains are folded. -/
def tightestFirst : List Tier :=
  [power, multiplicative, additive, shift, bitAnd, bitOr, comparison, equality, and, or, custom]

/-- The number of looser tiers. -/
def tightness : Tier → Nat
  | custom => 0
  | or => 1
  | and => 2
  | equality => 3
  | comparison => 4
  | bitOr => 5
  | bitAnd => 6
  | shift => 7
  | additive => 8
  | multiplicative => 9
  | power => 10

/-- The next tighter tier. -/
def tighter : Tier → Option Tier
  | custom => some or
  | or => some and
  | and => some equality
  | equality => some comparison
  | comparison => some bitOr
  | bitOr => some bitAnd
  | bitAnd => some shift
  | shift => some additive
  | additive => some multiplicative
  | multiplicative => some power
  | power => none

/-- The operators that have a place of their own. -/
def table : List (String × Tier) :=
  [("||", or), ("&&", and), ("==", equality), ("!=", equality), (">=", comparison),
    ("<=", comparison), (">", comparison), ("<", comparison), ("|", bitOr), ("&", bitAnd),
    ("<<", shift), (">>", shift), ("+", additive), ("-", additive), ("*", multiplicative),
    ("/", multiplicative), ("%", multiplicative), ("^", power)]

/-- The tier of an operator. -/
def ofOperator (operator : String) : Tier := (table.lookup operator).getD custom

end Tier

/-- A link of a chain; `α` stands for operands. -/
inductive Link (α : Type) where
  | operand (value : α)
  | operator (symbol : Located String)
deriving Repr

/-- How the parts of a folded chain are made. -/
structure Joining (α : Type) where
  /-- The operation of an operator on two operands. -/
  join : Located String → α → α → α
  /-- Where an operand was read. -/
  span : α → Span

namespace Joining

variable {α : Type} (J : Joining α)

/-- An operator lacks an operand. -/
def lonely (symbol : Located String) : Failure :=
  ⟨symbol.span, .lonelyOperator symbol.value, true⟩

/-- Folds the operators of one tier.  `passed` holds the links before the current one in
reverse. -/
def foldTier (tier : Tier) (passed : List (Link α)) :
    List (Link α) → Except Failure (List (Link α))
  | [] => .ok passed.reverse
  | .operand a :: links => foldTier tier (.operand a :: passed) links
  | .operator symbol :: links =>
    if Tier.ofOperator symbol.value = tier then
      match passed, links with
      | .operand a :: passed, .operand b :: links =>
        foldTier tier (.operand (J.join symbol a b) :: passed) links
      | _, _ => .error (lonely symbol)
    else foldTier tier (.operator symbol :: passed) links

/-- Folds the tiers one after the other. -/
def foldTiers : List Tier → List (Link α) → Except Failure (List (Link α))
  | [], links => .ok links
  | tier :: tiers, links => do foldTiers tiers (← J.foldTier tier [] links)

/-- Where a link was read. -/
def linkSpan : Link α → Span
  | .operand a => J.span a
  | .operator symbol => symbol.span

/-- Puts a chain together. -/
def fold (links : List (Link α)) : Except Failure α := do
  match ← J.foldTiers Tier.tightestFirst links with
  | [.operand a] => .ok a
  | rest =>
    .error ⟨(rest.getLast?.map J.linkSpan).getD {}, .incompleteReduction rest.length, true⟩

end Joining

end Formulary
