/-
# Pairs that unifying line breaks leaves

Line breaks are unified in one pass, which takes one carriage return from every run of them in front
of a line feed.  A single one is gone then, but of a longer run there is still a pair, and the next
pass takes another one: it takes as many passes as the longest run has carriage returns.
-/
import Mathlib.Logic.Function.Iterate
import Formulary.Proofs.Text.LineBreaks

namespace Formulary.Text

variable {c : Char} {cs ds : List Char} {n : Nat}

/-- Some carriage returns, and a line feed right behind them. -/
def returns (n : Nat) : List Char := List.replicate n '\r' ++ ['\n']

/-- The text contains a carriage return right before a line feed. -/
def Paired (cs : List Char) : Prop := returns 1 <:+: cs

instance : DecidablePred Paired := fun cs => inferInstanceAs (Decidable (returns 1 <:+: cs))

lemma returns_zero_prefix_iff : returns 0 <+: cs ↔ cs.head? = some '\n' := by
  cases cs with
  | nil => simp [returns]
  | cons d cs => simp [returns, List.cons_prefix_cons, eq_comm]

lemma returns_succ_prefix_cons_iff : returns (n + 1) <+: c :: cs ↔ c = '\r' ∧ returns n <+: cs := by
  rw [returns, List.replicate_succ, List.cons_append, List.cons_prefix_cons, eq_comm]
  rfl

@[simp] lemma returns_ne_nil : returns n ≠ [] := by simp [returns]

/-! ## Where pairs are -/

lemma not_paired_nil : ¬Paired [] := by simp [Paired]

lemma paired_cons_iff : Paired (c :: cs) ↔ c = '\r' ∧ cs.head? = some '\n' ∨ Paired cs := by
  rw [Paired, List.infix_cons_iff, returns_succ_prefix_cons_iff, returns_zero_prefix_iff]
  rfl

lemma not_paired_of_not_mem (h : '\r' ∉ cs) : ¬Paired cs := fun hpaired =>
  h (hpaired.subset (by simp [returns]))

/-- A pair may begin with the last character of the front part. -/
lemma paired_append_iff : Paired (cs ++ ds) ↔
    Paired cs ∨ cs.getLast? = some '\r' ∧ ds.head? = some '\n' ∨ Paired ds := by
  induction cs with
  | nil => simp [not_paired_nil]
  | cons c cs ih =>
    rw [List.cons_append, paired_cons_iff, paired_cons_iff]
    cases cs with
    | nil => simp [not_paired_nil]
    | cons d cs =>
      rw [ih, List.cons_append, List.head?_cons, List.head?_cons, List.getLast?_cons_cons, or_assoc]

/-! ## One pass -/

lemma head?_unifyLineBreaks_iff : (unifyLineBreaks cs).head? = some '\n' ↔
    cs.head? = some '\n' ∨ returns 1 <+: cs := by
  fun_cases unifyLineBreaks cs with
  | case1 cs => simp [returns_succ_prefix_cons_iff, returns_zero_prefix_iff]
  | case2 c cs hpair =>
    have hnot : ¬returns 1 <+: c :: cs := by
      rw [returns_succ_prefix_cons_iff, returns_zero_prefix_iff]
      rintro ⟨rfl, hhead⟩
      obtain ⟨ds, rfl⟩ := List.head?_eq_some_iff.mp hhead
      exact hpair ds rfl rfl
    simp [hnot]
  | case3 => simp

/-- A run in front is shorter by one afterwards. -/
lemma returns_prefix_unifyLineBreaks_iff :
    returns (n + 1) <+: unifyLineBreaks cs ↔ returns (n + 2) <+: cs := by
  induction cs using unifyLineBreaks.induct generalizing n with
  | case1 cs _ =>
    rw [unifyLineBreaks_pair, returns_succ_prefix_cons_iff, returns_succ_prefix_cons_iff,
      returns_succ_prefix_cons_iff]
    simp
  | case2 c cs hpair ih =>
    rw [unifyLineBreaks, returns_succ_prefix_cons_iff, returns_succ_prefix_cons_iff]
    · cases n with
      | succ n => rw [ih]
      | zero =>
        -- a line feed in front of what is left was there before, or it belongs to a pair
        rw [returns_zero_prefix_iff, head?_unifyLineBreaks_iff]
        constructor
        · rintro ⟨rfl, hhead | hreturns⟩
          · obtain ⟨ds, rfl⟩ := List.head?_eq_some_iff.mp hhead
            exact absurd rfl (hpair ds rfl)
          · exact ⟨rfl, hreturns⟩
        · rintro ⟨hc, hreturns⟩
          exact ⟨hc, .inr hreturns⟩
    · exact hpair
  | case3 => simp [unifyLineBreaks]

/-- Every run is shorter by one afterwards. -/
theorem returns_infix_unifyLineBreaks_iff :
    returns (n + 1) <:+: unifyLineBreaks cs ↔ returns (n + 2) <:+: cs := by
  induction cs using unifyLineBreaks.induct with
  | case1 cs ih =>
    rw [unifyLineBreaks_pair, List.infix_cons_iff, List.infix_cons_iff, List.infix_cons_iff, ih,
      returns_succ_prefix_cons_iff, returns_succ_prefix_cons_iff, returns_succ_prefix_cons_iff,
      returns_succ_prefix_cons_iff]
    simp
  | case2 c cs hpair ih =>
    have hunified : unifyLineBreaks (c :: cs) = c :: unifyLineBreaks cs := by
      rw [unifyLineBreaks]
      exact hpair
    rw [List.infix_cons_iff, ← ih, ← returns_prefix_unifyLineBreaks_iff, hunified,
      List.infix_cons_iff]
  | case3 => simp [unifyLineBreaks]

/-- Only a text without pairs stays as it is. -/
theorem unifyLineBreaks_eq_self_iff : unifyLineBreaks cs = cs ↔ ¬Paired cs := by
  constructor
  · intro h
    induction cs using unifyLineBreaks.induct with
    | case1 cs _ =>
      have hlength := byteLength_unifyLineBreaks ('\r' :: '\n' :: cs)
      rw [h, pairCount] at hlength
      omega
    | case2 c cs hpair ih =>
      rw [unifyLineBreaks, List.cons.injEq] at h
      · rw [paired_cons_iff]
        rintro (⟨rfl, hhead⟩ | hpaired)
        · obtain ⟨ds, rfl⟩ := List.head?_eq_some_iff.mp hhead
          exact hpair ds rfl rfl
        · exact ih h.2 hpaired
      · exact hpair
    | case3 => exact not_paired_nil
  · intro h
    induction cs using unifyLineBreaks.induct with
    | case1 cs _ => exact absurd (paired_cons_iff.mpr (.inl ⟨rfl, rfl⟩)) h
    | case2 c cs hpair ih =>
      rw [unifyLineBreaks, ih fun hpaired => h (paired_cons_iff.mpr (.inr hpaired))]
      exact hpair
    | case3 => rw [unifyLineBreaks]

/-! ## Passes one after another -/

/-- A run is shorter by one after every pass. -/
theorem returns_infix_iterate_iff (k : Nat) :
    returns (n + 1) <:+: unifyLineBreaks^[k] cs ↔ returns (n + 1 + k) <:+: cs := by
  induction k generalizing n with
  | zero => rfl
  | succ k ih =>
    rw [Function.iterate_succ_apply', returns_infix_unifyLineBreaks_iff, ih]
    have hlength : n + 1 + 1 + k = n + 1 + (k + 1) := by omega
    rw [hlength]

/-- Another pass changes nothing exactly if no run is longer than the number of passes. -/
theorem iterate_unifyLineBreaks_eq_iff (k : Nat) :
    unifyLineBreaks (unifyLineBreaks^[k] cs) = unifyLineBreaks^[k] cs ↔
      ¬returns (k + 1) <:+: cs := by
  rw [unifyLineBreaks_eq_self_iff, Paired, returns_infix_iterate_iff, Nat.add_comm]

end Formulary.Text
