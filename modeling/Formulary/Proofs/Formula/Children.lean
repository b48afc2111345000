/-
# Formulas in formulas

The formulas right below a formula, whatever its first layer is, and induction over them.  What
holds throughout a formula holds for it and for all formulas in it, those included that have no
name.
-/
import Mathlib.Tactic.Common
import Formulary.Store.View

namespace Formulary

variable {ε δ σ : Type}

/-- The formulas that a set holds. -/
def DefinitionSet.formulas : DefinitionSet ε δ σ → List (Formula ε δ σ)
  | .node _ definitions floating => definitions.filterMap Definition.value ++ floating

/-- The formulas right below a first layer. -/
def Shape.children : Shape (Formula ε δ σ) (DefinitionSet ε δ σ) → List (Formula ε δ σ)
  | .call callee arguments => callee :: arguments
  | .list items => items
  | .closure _ body => body.formulas
  | .switch cases => cases.flatMap Case.parts
  | .null | .bool _ | .number _ | .text _ | .name _ | .matrix _ => []

lemma Case.mem_of_mem_upToOtherwise {χ : Type} {c : Case χ} {cases : List (Case χ)}
    (h : c ∈ Case.upToOtherwise cases) : c ∈ cases := by
  induction cases with
  | nil => simp [Case.upToOtherwise] at h
  | cons d cases ih =>
    cases d with
    | when condition value =>
      rcases List.mem_cons.mp h with rfl | h
      · simp
      · simp [ih h]
    | otherwise value =>
      rw [Case.upToOtherwise, List.mem_singleton] at h
      simp [h]

/-! ## Induction -/

lemma DefinitionSet.sizeOf_lt_of_mem {set : DefinitionSet ε δ σ} {g : Formula ε δ σ}
    (h : g ∈ set.formulas) : sizeOf g < sizeOf set := by
  obtain ⟨note, definitions, floating⟩ := set
  rw [DefinitionSet.formulas, List.mem_append, List.mem_filterMap] at h
  rw [DefinitionSet.node.sizeOf_spec]
  rcases h with ⟨⟨note, name, value⟩, hd, hvalue⟩ | h
  · rw [Definition.value] at hvalue
    subst hvalue
    have hlt := List.sizeOf_lt_of_mem hd
    rw [Definition.node.sizeOf_spec, Option.some.sizeOf_spec] at hlt
    omega
  · have hlt := List.sizeOf_lt_of_mem h
    omega

lemma Case.sizeOf_lt_of_mem {c : Case (Formula ε δ σ)} {g : Formula ε δ σ} (h : g ∈ c.parts) :
    sizeOf g < sizeOf c := by
  cases c with
  | when condition value =>
    simp only [Case.parts, List.mem_cons, List.not_mem_nil, or_false] at h
    rw [Case.when.sizeOf_spec]
    rcases h with rfl | rfl <;> omega
  | otherwise value =>
    rw [Case.parts, List.mem_singleton] at h
    rw [Case.otherwise.sizeOf_spec, h]
    omega

/-- The formulas below are smaller. -/
lemma Shape.sizeOf_lt_of_mem {shape : Shape (Formula ε δ σ) (DefinitionSet ε δ σ)}
    {g : Formula ε δ σ} (h : g ∈ shape.children) : sizeOf g < sizeOf shape := by
  cases shape with
  | call callee arguments =>
    rw [Shape.call.sizeOf_spec]
    rcases List.mem_cons.mp h with rfl | h
    · omega
    · have hlt := List.sizeOf_lt_of_mem h
      omega
  | list items =>
    have hlt := List.sizeOf_lt_of_mem (show g ∈ items from h)
    rw [Shape.list.sizeOf_spec]
    omega
  | closure parameters body =>
    have hlt := DefinitionSet.sizeOf_lt_of_mem h
    rw [Shape.closure.sizeOf_spec]
    omega
  | switch cases =>
    obtain ⟨c, hc, hg⟩ := List.mem_flatMap.mp h
    have hcase := List.sizeOf_lt_of_mem hc
    have hlt := Case.sizeOf_lt_of_mem hg
    rw [Shape.switch.sizeOf_spec]
    omega
  | _ => cases h

/-- What holds for a formula if it holds for all formulas right below it holds for every
formula. -/
theorem Formula.induction {P : Formula ε δ σ → Prop}
    (h : ∀ note shape, (∀ g ∈ Shape.children shape, P g) → P (.node note shape))
    (f : Formula ε δ σ) : P f := by
  induction hsize : sizeOf f using Nat.strongRecOn generalizing f with
  | _ n ih =>
    obtain ⟨note, shape⟩ := f
    refine h note shape fun g hg => ih (sizeOf g) ?_ g rfl
    have hlt := Shape.sizeOf_lt_of_mem hg
    rw [Formula.node.sizeOf_spec] at hsize
    omega

/-- The property holds for the formula and for all formulas in it. -/
inductive Formula.Throughout (P : Formula ε δ σ → Prop) : Formula ε δ σ → Prop
  | intro {note : ε} {shape : Shape (Formula ε δ σ) (DefinitionSet ε δ σ)}
      (here : P (.node note shape)) (below : ∀ g ∈ shape.children, Throughout P g) :
      Throughout P (.node note shape)

/-- The property holds for all formulas of the set and for all formulas in them. -/
def DefinitionSet.Throughout (P : Formula ε δ σ → Prop) (set : DefinitionSet ε δ σ) : Prop :=
  ∀ f ∈ set.formulas, f.Throughout P

variable {P Q R : Formula ε δ σ → Prop}

lemma Formula.Throughout.and {f : Formula ε δ σ} (hP : f.Throughout P) (hQ : f.Throughout Q)
    (h : ∀ g, P g → Q g → R g) : f.Throughout R := by
  induction hP with
  | intro hereP _ ih =>
    cases hQ with
    | intro hereQ belowQ => exact .intro (h _ hereP hereQ) fun g hg => ih g hg (belowQ g hg)

/-- What holds throughout a formula holds throughout every formula in it. -/
lemma Formula.Throughout.self {f : Formula ε δ σ} (h : f.Throughout P) :
    f.Throughout (Formula.Throughout P) := by
  induction h with
  | intro here below ih => exact .intro (.intro here below) ih

lemma Formula.throughout_node {note : ε} {shape : Shape (Formula ε δ σ) (DefinitionSet ε δ σ)} :
    (Formula.node note shape).Throughout P ↔
      P (.node note shape) ∧ ∀ g : { g // g ∈ shape.children }, g.1.Throughout P := by
  constructor
  · rintro ⟨here, below⟩
    exact ⟨here, fun g => below g.1 g.2⟩
  · rintro ⟨here, below⟩
    exact .intro here fun g hg => below ⟨g, hg⟩

/-- Whether a property that can be decided holds throughout a formula can be decided. -/
def Formula.decidableThroughout (P : Formula ε δ σ → Prop) [DecidablePred P] :
    (f : Formula ε δ σ) → Decidable (f.Throughout P)
  | .node note shape =>
    have : ∀ g : { g // g ∈ shape.children }, Decidable (g.1.Throughout P) := fun ⟨g, hg⟩ =>
      have := Shape.sizeOf_lt_of_mem hg
      decidableThroughout P g
    decidable_of_iff (P (.node note shape) ∧ ∀ g ∈ shape.children.attach, g.1.Throughout P)
      (by simp [Formula.throughout_node])
termination_by f => sizeOf f
decreasing_by
  rw [Formula.node.sizeOf_spec]
  omega

instance [DecidablePred P] : DecidablePred (Formula.Throughout P) := Formula.decidableThroughout P

instance [DecidablePred P] : DecidablePred (DefinitionSet.Throughout P) := fun set =>
  inferInstanceAs (Decidable (∀ f ∈ set.formulas, f.Throughout P))

end Formulary
