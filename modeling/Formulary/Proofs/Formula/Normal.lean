/-
# Normal form

Formulas that were read are in normal form: numbers are finite, a value that is written out in
full is an array at the top, a list has an item that is not written out in full, and the result of
a closure is the first of its definitions.  A set that was read defines all its names and holds no
other formulas.
-/
import Formulary.Proofs.Data.Results
import Formulary.Proofs.Formula.Children

namespace Formulary

variable {ε δ σ : Type}

mutual

/-- The numbers in a value that is written out in full. -/
def Matrix.numbers : Matrix → List Binary64
  | .number value => [value]
  | .array entries => Matrix.numbersOf entries
  | .null | .bool _ | .text _ => []

/-- The numbers in values that are written out in full. -/
def Matrix.numbersOf : List Matrix → List Binary64
  | [] => []
  | m :: ms => m.numbers ++ Matrix.numbersOf ms

end

/-- All numbers in a value that is written out in full are finite. -/
def Matrix.Finite (m : Matrix) : Prop := ∀ x ∈ m.numbers, x.isFinite = true

/-- Every name of the set stands for a formula, and there are no other formulas. -/
def DefinitionSet.Bound (set : DefinitionSet ε δ σ) : Prop :=
  (∀ d ∈ set.definitions, d.value.isSome = true) ∧ set.floating = []

/-- The formula itself is in normal form, whatever the formulas in it are. -/
def Formula.Normal : Formula ε δ σ → Prop
  | .node _ (.number value) => value.isFinite = true
  | .node _ (.matrix value) => (∃ entries, value = .array entries) ∧ value.Finite
  | .node _ (.list items) => ∃ f ∈ items, f.matrix? = none
  | .node _ (.closure _ body) =>
    body.Bound ∧ ∃ d ds, body.definitions = d :: ds ∧ d.name = resultName
  | _ => True

lemma Matrix.finite_array {entries : List Matrix} :
    (Matrix.array entries).Finite ↔ ∀ m ∈ entries, m.Finite := by
  have hnumbers (ms : List Matrix) : (∀ x ∈ Matrix.numbersOf ms, x.isFinite = true) ↔
      ∀ m ∈ ms, m.Finite := by
    induction ms with
    | nil => simp [Matrix.numbersOf]
    | cons m ms ih =>
      rw [Matrix.numbersOf, List.forall_mem_append, ih, List.forall_mem_cons]
      rfl
  rw [Matrix.Finite, Matrix.numbers]
  exact hnumbers entries

/-- What is written out in full in a formula in normal form has finite numbers only. -/
lemma Formula.Normal.finite_of_matrix? {f : Formula ε δ σ} (h : f.Normal) {m : Matrix}
    (hm : f.matrix? = some m) : m.Finite := by
  obtain ⟨note, shape⟩ := f
  cases shape with
  | number value =>
    cases hm
    have hfinite : value.isFinite = true := h
    simpa [Matrix.Finite, Matrix.numbers] using hfinite
  | matrix value =>
    cases hm
    exact h.2
  | null =>
    cases hm
    simp [Matrix.Finite, Matrix.numbers]
  | bool value =>
    cases hm
    simp [Matrix.Finite, Matrix.numbers]
  | text value =>
    cases hm
    simp [Matrix.Finite, Matrix.numbers]
  | _ => cases hm

/-- A list of formulas in normal form is in normal form. -/
lemma Formula.throughout_ofItems {note : ε} {items : List (Formula ε δ σ)}
    (h : ∀ f ∈ items, f.Throughout Formula.Normal) :
    (Formula.ofItems note items).Throughout Formula.Normal := by
  unfold Formula.ofItems
  cases hm : items.mapM Formula.matrix? with
  | some entries =>
    refine .intro ⟨⟨entries, rfl⟩, Matrix.finite_array.mpr fun m hmem => ?_⟩ fun g hg => by cases hg
    obtain ⟨f, hf, hfm⟩ := mapM_eq_some hm m hmem
    have hnormal := h f hf
    cases hnormal with
    | intro here _ => exact here.finite_of_matrix? hfm
  | none => exact .intro (mapM_eq_none_iff.mp hm) h

end Formulary
