/-
# Sorted snapshots

A snapshot is the formula without notes in which the definitions of every set are sorted by name,
and those of one name stand in their old order.  The relation below says this layer by layer,
without a way to sort.
-/
import Formulary.Proofs.Data.Lists
import Formulary.Proofs.Formula.Cut
import Formulary.Proofs.Formula.Related

namespace Formulary

variable {ε δ σ : Type}

/-- The definitions `es` are those in `ds` in the order of their names, and definitions of one
name are in their old order. -/
structure SortedByName (ds es : List Definition.Bare) : Prop where
  perm : es.Perm ds
  sorted : es.Pairwise fun d e => ¬ e.name < d.name
  stable : ∀ name, es.filter (·.name = name) = ds.filter (·.name = name)

mutual

/-- The second formula is the first one with all sets in it sorted. -/
inductive Formula.SortsTo : Formula.Bare → Formula.Bare → Prop
  | node {s t : Shape Formula.Bare DefinitionSet.Bare}
      (h : Shape.Related Formula.SortsTo DefinitionSet.SortsTo s t) :
      Formula.SortsTo (.node () s) (.node () t)

/-- The second definition is the first one with all sets in it sorted. -/
inductive Definition.SortsTo : Definition.Bare → Definition.Bare → Prop
  | unbound (name : String) : Definition.SortsTo (.node () name none) (.node () name none)
  | bound (name : String) {f g : Formula.Bare} (h : Formula.SortsTo f g) :
      Definition.SortsTo (.node () name (some f)) (.node () name (some g))

/-- The second set is the first one sorted, and so are all sets in it. -/
inductive DefinitionSet.SortsTo : DefinitionSet.Bare → DefinitionSet.Bare → Prop
  | node {ds ds' es : List Definition.Bare} {fs gs : List Formula.Bare}
      (hdefinitions : List.Forall₂ Definition.SortsTo ds ds') (hsorted : SortedByName ds' es)
      (hfloating : List.Forall₂ Formula.SortsTo fs gs) :
      DefinitionSet.SortsTo (.node () ds fs) (.node () es gs)

end

/-! ## The order of a snapshot -/

lemma Definition.namedBefore_iff {d e : Definition.Bare} :
    d.namedBefore e = true ↔ ¬ e.name < d.name := by
  rw [Definition.namedBefore, Bool.not_eq_true', decide_eq_false_iff_not]

lemma Definition.namedBefore_trans (c d e : Definition.Bare) (h : c.namedBefore d = true)
    (h' : d.namedBefore e = true) : c.namedBefore e = true := by
  rw [Definition.namedBefore_iff] at h h' ⊢
  exact String.le_trans (a := c.name) h h'

lemma Definition.namedBefore_total (d e : Definition.Bare) :
    (d.namedBefore e || e.namedBefore d) = true := by
  rw [Bool.or_eq_true, Definition.namedBefore_iff, Definition.namedBefore_iff]
  exact String.le_total d.name e.name

/-- Sorting definitions by name is stable. -/
lemma sortedByName_mergeSort (ds : List Definition.Bare) :
    SortedByName ds (ds.mergeSort Definition.namedBefore) where
  perm := List.mergeSort_perm ds _
  sorted := (List.pairwise_mergeSort Definition.namedBefore_trans Definition.namedBefore_total
    ds).imp Definition.namedBefore_iff.mp
  stable := fun name => filter_mergeSort Definition.namedBefore_trans Definition.namedBefore_total
    (fun d e hd he => by
      rw [Definition.namedBefore_iff, of_decide_eq_true hd, of_decide_eq_true he]
      exact String.lt_irrefl _) ds

/-! ## Snapshots -/

lemma DefinitionSet.sortsTo_snapshot_of_formulas {set : DefinitionSet ε δ σ}
    (h : ∀ f ∈ set.formulas, Formula.SortsTo f.bare f.snapshot) :
    DefinitionSet.SortsTo set.bare set.snapshot := by
  rw [DefinitionSet.snapshot_eq, ← DefinitionSet.map_sorted]
  obtain ⟨note, ds, floating⟩ := set
  rw [DefinitionSet.bare_node]
  have hdefinitions : List.Forall₂ Definition.SortsTo (ds.map Definition.bare)
      (ds.map (Definition.toBare Formula.snapshot)) := by
    rw [List.forall₂_map_left_iff, List.forall₂_map_right_iff, List.forall₂_same]
    intro d hd
    obtain ⟨note, name, _ | value⟩ := d
    · exact .unbound name
    · exact .bound name (h value (DefinitionSet.mem_formulas_of_value hd rfl))
  refine .node hdefinitions (sortedByName_mergeSort _) ?_
  rw [List.forall₂_map_left_iff, List.forall₂_map_right_iff, DefinitionSet.floating,
    List.forall₂_same]
  exact fun f hf => h f (DefinitionSet.mem_formulas_of_floating hf)

lemma Formula.sortsTo_snapshot (f : Formula ε δ σ) : Formula.SortsTo f.bare f.snapshot := by
  induction f using Formula.induction with
  | h note shape ih =>
    rw [Formula.bare_node, Formula.snapshot_node]
    refine .node (Shape.related_map ih fun ps body hbody => ?_)
    subst hbody
    exact DefinitionSet.sortsTo_snapshot_of_formulas ih

/-- A snapshot has all sets sorted and is the same otherwise. -/
theorem DefinitionSet.sortsTo_snapshot (set : DefinitionSet ε δ σ) :
    DefinitionSet.SortsTo set.bare set.snapshot :=
  DefinitionSet.sortsTo_snapshot_of_formulas fun f _ => f.sortsTo_snapshot

end Formulary
