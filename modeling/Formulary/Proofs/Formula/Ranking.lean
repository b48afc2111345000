/-
# Sorting by name as a permutation

The rows that sorting by name makes of two rows of definitions correspond one by one exactly if
the places of the two rows can be matched, names with the same names, so that definitions of one
name stay in their order.  Sorting is stable: it reads a row in the order of the one permutation
that puts the names in order and keeps the order of equal ones.
-/
import Mathlib.Data.Fin.Tuple.Sort
import Mathlib.Data.String.Basic
import Formulary.Proofs.Formula.Sorted

namespace Formulary

/-! ## Places in the order of the names -/

section Places

variable {n : ℕ} (x : Fin n → Definition.Bare)

/-- Whether the definition at one place may stand before the one at another. -/
def placedBefore (i j : Fin n) : Bool := (x i).namedBefore (x j)

/-- The name at one place is before the one at another, or it is the same and the place is. -/
def RankedBefore (i j : Fin n) : Prop :=
  (x i).name < (x j).name ∨ (x i).name = (x j).name ∧ i < j

lemma placedBefore_iff {i j : Fin n} : placedBefore x i j = true ↔ (x i).name ≤ (x j).name := by
  rw [placedBefore, Definition.namedBefore_iff, not_lt]

lemma placedBefore_trans (i j k : Fin n) (h : placedBefore x i j = true)
    (h' : placedBefore x j k = true) : placedBefore x i k = true :=
  Definition.namedBefore_trans _ _ _ h h'

lemma placedBefore_total (i j : Fin n) : (placedBefore x i j || placedBefore x j i) = true :=
  Definition.namedBefore_total _ _

lemma RankedBefore.asymm {i j : Fin n} (h : RankedBefore x i j) : ¬ RankedBefore x j i := by
  rintro (h' | ⟨heq, h'⟩) <;> rcases h with h | ⟨heq', h⟩
  · exact lt_asymm h h'
  · exact h'.ne heq'.symm
  · exact h.ne heq.symm
  · exact lt_asymm h h'

lemma pairwise_mergeSort_finRange :
    ((List.finRange n).mergeSort (placedBefore x)).Pairwise (RankedBefore x) := by
  rw [List.pairwise_iff_forall_sublist]
  intro i j hsublist
  have hsorted := List.pairwise_mergeSort (placedBefore_trans x) (placedBefore_total x)
    (List.finRange n)
  have hle := List.pairwise_iff_forall_sublist.mp hsorted hsublist
  rw [placedBefore_iff] at hle
  rcases hle.lt_or_eq with hlt | heq
  · exact .inl hlt
  · refine .inr ⟨heq, ?_⟩
    -- the places of one name are in the order that they had before
    have hkept := hsublist.filter fun k => (x k).name = (x i).name
    rw [filter_mergeSort (placedBefore_trans x) (placedBefore_total x) (fun a b ha hb => by
      rw [placedBefore_iff, of_decide_eq_true ha, of_decide_eq_true hb]),
      List.filter_cons_of_pos (by simp),
      List.filter_cons_of_pos (by simp [heq]), List.filter_nil] at hkept
    exact List.pairwise_iff_forall_sublist.mp (List.pairwise_lt_finRange n)
      (hkept.trans List.filter_sublist)

lemma pairwise_ofFn_sort :
    (List.ofFn (Tuple.sort fun i => (x i).name)).Pairwise (RankedBefore x) := by
  obtain ⟨hmono, hties⟩ := Tuple.eq_sort_iff.mp (rfl : Tuple.sort (fun i => (x i).name) = _)
  rw [List.pairwise_ofFn]
  intro i j hij
  rcases (hmono hij.le).lt_or_eq with hlt | heq
  · exact .inl hlt
  · exact .inr ⟨heq, hties i j hij heq⟩

/-- Sorting by name reads a row in the order of a permutation of its places. -/
lemma mergeSort_ofFn :
    (List.ofFn x).mergeSort Definition.namedBefore =
      List.ofFn (x ∘ Tuple.sort fun i => (x i).name) := by
  have hperm : (List.ofFn (Tuple.sort fun i => (x i).name)).Perm (List.finRange n) := by
    have hid := Equiv.Perm.ofFn_comp_perm (Tuple.sort fun i => (x i).name) id
    rwa [Function.id_comp, List.ofFn_id] at hid
  -- both rows of places are ranked, and there is one such row
  have hplaces : (List.finRange n).mergeSort (placedBefore x) =
      List.ofFn (Tuple.sort fun i => (x i).name) :=
    ((List.mergeSort_perm _ _).trans hperm.symm).eq_of_pairwise
      (fun _ _ _ _ h h' => absurd h' (h.asymm x)) (pairwise_mergeSort_finRange x)
      (pairwise_ofFn_sort x)
  have hmap := List.map_mergeSort (r := placedBefore x) (s := Definition.namedBefore) (f := x)
    (l := List.finRange n) fun _ _ _ _ => rfl
  rw [List.ofFn_eq_map, ← hmap, hplaces, List.map_ofFn]

end Places

/-! ## Two rows -/

section Rows

variable {n m : ℕ} {R : Definition.Bare → Definition.Bare → Prop}

lemma forall₂_ofFn {x y : Fin n → Definition.Bare} :
    List.Forall₂ R (List.ofFn x) (List.ofFn y) ↔ ∀ i, R (x i) (y i) := by
  rw [List.forall₂_iff_get]
  simp [Fin.forall_iff]

/-- The permutations that sort two matched rows differ by the matching. -/
lemma sort_eq_trans {x y : Fin n → Definition.Bare} {π : Equiv.Perm (Fin n)}
    (hname : ∀ i, (x i).name = (y (π i)).name)
    (hπ : ∀ i j, i < j → (x i).name = (x j).name → π i < π j) :
    Tuple.sort (fun i => (y i).name) = (Tuple.sort fun i => (x i).name).trans π := by
  obtain ⟨hmono, hties⟩ := Tuple.eq_sort_iff.mp (rfl : Tuple.sort (fun i => (x i).name) = _)
  have hnames : (fun i => (y i).name) ∘ (Tuple.sort fun i => (x i).name).trans π =
      (fun i => (x i).name) ∘ Tuple.sort fun i => (x i).name :=
    funext fun i => (hname _).symm
  refine (Tuple.eq_sort_iff.mpr ⟨hnames ▸ hmono, fun i j hij heq => ?_⟩).symm
  have heq' := (hname _).trans (heq.trans (hname _).symm)
  exact hπ _ _ (hties i j hij heq') heq'

/-- Going back with one sorting permutation and forth with the other keeps the order of
definitions of one name. -/
lemma sort_symm_trans_lt {x y : Fin n → Definition.Bare}
    (hname : ∀ i, (x (Tuple.sort (fun i => (x i).name) i)).name =
      (y (Tuple.sort (fun i => (y i).name) i)).name) {i j : Fin n} (hij : i < j)
    (heq : (x i).name = (x j).name) :
    (Tuple.sort fun i => (x i).name).symm.trans (Tuple.sort fun i => (y i).name) i <
      (Tuple.sort fun i => (x i).name).symm.trans (Tuple.sort fun i => (y i).name) j := by
  obtain ⟨-, hties⟩ := Tuple.eq_sort_iff.mp (rfl : Tuple.sort (fun i => (x i).name) = _)
  obtain ⟨-, hties'⟩ := Tuple.eq_sort_iff.mp (rfl : Tuple.sort (fun i => (y i).name) = _)
  generalize Tuple.sort (fun i => (x i).name) = s at *
  generalize Tuple.sort (fun i => (y i).name) = t at *
  obtain ⟨a, rfl⟩ := s.surjective i
  obtain ⟨b, rfl⟩ := s.surjective j
  rw [Equiv.trans_apply, Equiv.trans_apply, Equiv.symm_apply_apply, Equiv.symm_apply_apply]
  rcases lt_trichotomy a b with hab | rfl | hba
  · exact hties' a b hab ((hname a).symm.trans (heq.trans (hname b)))
  · exact absurd hij (lt_irrefl _)
  · exact absurd (hties b a hba heq.symm) hij.asymm

/-- Two rows sorted by name are related one by one exactly if the rows can be matched so that
definitions of one name stay in their order. -/
theorem forall₂_mergeSort_iff (hR : ∀ d e, R d e → d.name = e.name)
    {x : Fin n → Definition.Bare} {y : Fin m → Definition.Bare} :
    List.Forall₂ R ((List.ofFn x).mergeSort Definition.namedBefore)
      ((List.ofFn y).mergeSort Definition.namedBefore) ↔
      ∃ π : Fin n ≃ Fin m, (∀ i, R (x i) (y (π i))) ∧
        ∀ i j, i < j → (x i).name = (x j).name → π i < π j := by
  rw [mergeSort_ofFn, mergeSort_ofFn]
  constructor
  · intro h
    obtain rfl : n = m := by simpa using h.length_eq
    have hrelated := forall₂_ofFn.mp h
    refine ⟨(Tuple.sort fun i => (x i).name).symm.trans (Tuple.sort fun i => (y i).name),
      fun i => ?_, fun i j => sort_symm_trans_lt fun i => hR _ _ (hrelated i)⟩
    obtain ⟨a, rfl⟩ := (Tuple.sort fun i => (x i).name).surjective i
    rw [Equiv.trans_apply, Equiv.symm_apply_apply]
    exact hrelated a
  · rintro ⟨π, hrelated, hπ⟩
    obtain rfl : n = m := Fin.equiv_iff_eq.mp ⟨π⟩
    rw [forall₂_ofFn, sort_eq_trans (fun i => hR _ _ (hrelated i)) hπ]
    exact fun i => hrelated _

end Rows

end Formulary
