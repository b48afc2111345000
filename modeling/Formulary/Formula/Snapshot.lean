/-
# Snapshots

A snapshot keeps the structure of a program and drops all notes.  The definitions of a set have
no order of their own, so a snapshot sorts them by name; definitions of one name stay in their
order.  Two programs are the same up to the order of their definitions if their snapshots are
alike, where numbers are compared by value.
-/
import Formulary.Formula.Basic

namespace Formulary

/-- A formula without notes. -/
abbrev Formula.Bare := Formula Unit Unit Unit

/-- A definition without notes. -/
abbrev Definition.Bare := Definition Unit Unit Unit

/-- A set of definitions without notes. -/
abbrev DefinitionSet.Bare := DefinitionSet Unit Unit Unit

/-- Whether a definition may stand before another one in a snapshot. -/
def Definition.namedBefore (d e : Definition.Bare) : Bool := !(decide (e.name < d.name))

variable {ε δ σ : Type}

mutual

/-- A formula without notes, the sets in it sorted. -/
def Formula.snapshot : Formula ε δ σ → Formula.Bare
  | .node _ shape => .node () (Shape.snapshot shape)

/-- The first layer of a snapshot. -/
def Shape.snapshot :
    Shape (Formula ε δ σ) (DefinitionSet ε δ σ) → Shape Formula.Bare DefinitionSet.Bare
  | .null => .null
  | .bool value => .bool value
  | .number value => .number value
  | .text value => .text value
  | .name name => .name name
  | .call callee arguments => .call callee.snapshot (Formula.snapshots arguments)
  | .list items => .list (Formula.snapshots items)
  | .matrix value => .matrix value
  | .closure parameters body => .closure parameters body.snapshot
  | .switch cases => .switch (Case.snapshots cases)

/-- The snapshots of formulas, in their order. -/
def Formula.snapshots : List (Formula ε δ σ) → List Formula.Bare
  | [] => []
  | f :: fs => f.snapshot :: Formula.snapshots fs

/-- The snapshots of cases, in their order. -/
def Case.snapshots : List (Case (Formula ε δ σ)) → List (Case Formula.Bare)
  | [] => []
  | .when condition value :: cases =>
    .when condition.snapshot value.snapshot :: Case.snapshots cases
  | .otherwise value :: cases => .otherwise value.snapshot :: Case.snapshots cases

/-- The snapshots of definitions, in their order. -/
def Definition.snapshots : List (Definition ε δ σ) → List Definition.Bare
  | [] => []
  | .node _ name none :: ds => .node () name none :: Definition.snapshots ds
  | .node _ name (some value) :: ds =>
    .node () name (some value.snapshot) :: Definition.snapshots ds

/-- A set without notes, its definitions sorted by name. -/
def DefinitionSet.snapshot : DefinitionSet ε δ σ → DefinitionSet.Bare
  | .node _ definitions floating =>
    .node () ((Definition.snapshots definitions).mergeSort Definition.namedBefore)
      (Formula.snapshots floating)

end

/-! ## Comparison -/

mutual

/-- Whether two written values are the same, numbers compared by value. -/
def Matrix.alike : Matrix → Matrix → Bool
  | .null, .null => true
  | .bool b, .bool c => b == c
  | .number x, .number y => x.alike y
  | .text s, .text t => s == t
  | .array ms, .array ns => Matrix.allAlike ms ns
  | _, _ => false

/-- Whether two lists of written values are the same, one by one. -/
def Matrix.allAlike : List Matrix → List Matrix → Bool
  | [], [] => true
  | m :: ms, n :: ns => m.alike n && Matrix.allAlike ms ns
  | _, _ => false

end

mutual

/-- Whether two formulas are the same up to their notes, numbers compared by value. -/
def Formula.alike : Formula ε δ σ → Formula ε δ σ → Bool
  | .node _ s, .node _ t => Shape.alike s t

/-- Whether two first layers are the same up to the notes below them. -/
def Shape.alike :
    Shape (Formula ε δ σ) (DefinitionSet ε δ σ) → Shape (Formula ε δ σ) (DefinitionSet ε δ σ) →
      Bool
  | .null, .null => true
  | .bool b, .bool c => b == c
  | .number x, .number y => x.alike y
  | .text s, .text t => s == t
  | .name n, .name m => n == m
  | .call f xs, .call g ys => f.alike g && Formula.allAlike xs ys
  | .list xs, .list ys => Formula.allAlike xs ys
  | .matrix m, .matrix n => m.alike n
  | .closure ps b, .closure qs c => ps == qs && b.alike c
  | .switch cs, .switch ds => Case.allAlike cs ds
  | _, _ => false

/-- Whether two lists of formulas are the same, one by one. -/
def Formula.allAlike : List (Formula ε δ σ) → List (Formula ε δ σ) → Bool
  | [], [] => true
  | f :: fs, g :: gs => f.alike g && Formula.allAlike fs gs
  | _, _ => false

/-- Whether two lists of cases are the same, one by one. -/
def Case.allAlike : List (Case (Formula ε δ σ)) → List (Case (Formula ε δ σ)) → Bool
  | [], [] => true
  | .when c v :: cs, .when d w :: ds => c.alike d && v.alike w && Case.allAlike cs ds
  | .otherwise v :: cs, .otherwise w :: ds => v.alike w && Case.allAlike cs ds
  | _, _ => false

/-- Whether two lists of definitions are the same, one by one. -/
def Definition.allAlike : List (Definition ε δ σ) → List (Definition ε δ σ) → Bool
  | [], [] => true
  | .node _ n none :: ds, .node _ m none :: es => n == m && Definition.allAlike ds es
  | .node _ n (some f) :: ds, .node _ m (some g) :: es =>
    n == m && f.alike g && Definition.allAlike ds es
  | _, _ => false

/-- Whether two sets are the same in their order, up to the notes. -/
def DefinitionSet.alike : DefinitionSet ε δ σ → DefinitionSet ε δ σ → Bool
  | .node _ ds fs, .node _ es gs => Definition.allAlike ds es && Formula.allAlike fs gs

end

end Formulary
