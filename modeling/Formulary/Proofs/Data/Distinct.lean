/-
# Lists with every element once

`List.eraseDups` keeps the first of equal elements.  What is left has no repetitions and stands in
the order in which the elements first occur.
-/
import Mathlib.Data.List.Induction
import Mathlib.Data.List.Nodup

namespace Formulary

variable {α : Type} [DecidableEq α] {a : α} {l k : List α}

lemma eraseDups_concat (l : List α) (a : α) :
    (l ++ [a]).eraseDups = if a ∈ l then l.eraseDups else l.eraseDups ++ [a] := by
  rw [List.eraseDups_append, List.removeAll, List.filter_singleton]
  by_cases ha : a ∈ l <;> simp [ha, List.eraseDups_cons]

lemma nodup_eraseDups (l : List α) : l.eraseDups.Nodup := by
  induction l using List.reverseRecOn with
  | nil => exact List.nodup_nil
  | append_singleton l a ih =>
    rw [eraseDups_concat]
    split
    · exact ih
    · rename_i ha
      exact List.nodup_append.mpr ⟨ih, List.nodup_singleton a, fun b hb c hc => by
        rw [List.mem_singleton] at hc
        rintro rfl
        exact ha (hc ▸ List.mem_eraseDups.mp hb)⟩

lemma eraseDups_of_nodup (h : l.Nodup) : l.eraseDups = l := by
  induction l using List.reverseRecOn with
  | nil => exact List.eraseDups_nil
  | append_singleton l a ih =>
    have ha : a ∉ l := fun ha => (List.nodup_append.mp h).2.2 a ha a (List.mem_singleton_self a) rfl
    rw [eraseDups_concat, if_neg ha, ih (h.sublist (List.sublist_append_left l [a]))]

/-- What is put behind a list adds the elements that are new. -/
lemma eraseDups_append (l k : List α) :
    (l ++ k).eraseDups = l.eraseDups ++ k.eraseDups.filter fun a => decide (a ∉ l) := by
  induction k using List.reverseRecOn with
  | nil => simp
  | append_singleton k a ih =>
    rw [← List.append_assoc, eraseDups_concat, eraseDups_concat, ih]
    by_cases hk : a ∈ k <;> by_cases hl : a ∈ l <;> simp [hk, hl]

lemma eraseDups_append_of_subset (h : ∀ a ∈ k, a ∈ l) : (l ++ k).eraseDups = l.eraseDups := by
  have hnone : (k.eraseDups.filter fun a => decide (a ∉ l)) = [] := by
    refine List.filter_eq_nil_iff.mpr fun a ha => ?_
    simp [h a (List.mem_eraseDups.mp ha)]
  rw [eraseDups_append, hnone, List.append_nil]

lemma eraseDups_append_congr {l' k' : List α} (hl : l.eraseDups = l'.eraseDups)
    (hk : k.eraseDups = k'.eraseDups) : (l ++ k).eraseDups = (l' ++ k').eraseDups := by
  have hmem (a : α) : a ∈ l ↔ a ∈ l' := by rw [← List.mem_eraseDups, hl, List.mem_eraseDups]
  rw [eraseDups_append, eraseDups_append, hl, hk]
  simp only [hmem]

/-- The elements with a property, each once, stand in the order of their first occurrences. -/
lemma pairwise_eraseDups_filter (p : α → Bool) (l : List α) :
    (l.filter p).eraseDups.Pairwise fun a b => l.idxOf a < l.idxOf b := by
  induction l using List.reverseRecOn with
  | nil => exact .nil
  | append_singleton l a ih =>
    have hmem : ∀ b ∈ (l.filter p).eraseDups, b ∈ l := fun b hb =>
      (List.mem_filter.mp (List.mem_eraseDups.mp hb)).1
    have hstay : (l.filter p).eraseDups.Pairwise fun b c =>
        (l ++ [a]).idxOf b < (l ++ [a]).idxOf c := by
      refine ih.imp_of_mem fun hb hc hlt => ?_
      rwa [List.idxOf_append_of_mem (hmem _ hb), List.idxOf_append_of_mem (hmem _ hc)]
    rw [List.filter_append, List.filter_singleton]
    cases hp : p a with
    | false => rwa [cond_false, List.append_nil]
    | true =>
      rw [cond_true, eraseDups_concat]
      split
      · exact hstay
      · rename_i ha
        refine List.pairwise_append.mpr ⟨hstay, List.pairwise_singleton _ a, fun b hb c hc => ?_⟩
        rw [List.mem_singleton] at hc
        subst hc
        have hnew : c ∉ l := fun hmem => ha (List.mem_filter.mpr ⟨hmem, hp⟩)
        rw [List.idxOf_append_of_mem (hmem b hb), List.idxOf_append_of_notMem hnew]
        exact Nat.lt_add_right _ (List.idxOf_lt_length_of_mem (hmem b hb))

end Formulary
