/-
# The nearest number

Ranks and units translate into each other, so the number nearest to a number of the format is
that number.  Which number is the nearest depends on the value of a fraction and not on how it
is set out, and the shortcuts for very large and very small decimals agree with the computation
that they avoid.
-/
import Mathlib.Algebra.Ring.Nat
import Mathlib.Tactic.Common
import Formulary.Number.Decimal

namespace Formulary

namespace Binary64

/-! ## Ranks and units -/

lemma perExponent_pos : 0 < perExponent := Nat.pow_pos (by decide)

/-- A whole number with more than 53 binary digits, split into its first 53 and the others. -/
lemma rankOfUnits_shift {n s : Nat} (h : n.log2 = 52 + s) :
    rankOfUnits n = s * perExponent + n / 2 ^ s := by
  have hs : n.log2 - 52 = s := by omega
  simp only [rankOfUnits, hs, Nat.pow_eq]

lemma rankOfUnits_of_small {n : Nat} (h : n < 2 * perExponent) : rankOfUnits n = n := by
  have hlog : n.log2 - 52 = 0 := by
    rcases Nat.eq_zero_or_pos n with rfl | hpos
    · rfl
    · have : n.log2 < 53 := (Nat.log2_lt (by omega)).mpr (by simpa [perExponent] using h)
      omega
  simp [rankOfUnits, hlog]

lemma units_of_small {r : Nat} (h : r < 2 * perExponent) : units r = r := by
  unfold units
  dsimp only
  split
  · rfl
  · rename_i hne
    have hpos := perExponent_pos
    have hdiv : r / perExponent = 1 := by
      have hlt : r / perExponent < 2 := Nat.div_lt_of_lt_mul (by rwa [Nat.mul_comm] at h)
      exact Nat.le_antisymm (Nat.le_of_lt_succ hlt) (Nat.pos_of_ne_zero hne)
    have hsplit := Nat.div_add_mod r perExponent
    rw [hdiv, Nat.mul_one] at hsplit
    rw [hdiv, hsplit]
    simp

/-- The units of a rank beyond the second exponent, by its exponent and its fraction. -/
lemma units_shift {s m : Nat} (hm : m < perExponent) :
    units ((s + 1) * perExponent + m) = (perExponent + m) * 2 ^ s := by
  have hpos := perExponent_pos
  have hdiv : ((s + 1) * perExponent + m) / perExponent = s + 1 := by
    rw [Nat.mul_comm, Nat.mul_add_div hpos, Nat.div_eq_of_lt hm, Nat.add_zero]
  have hmod : ((s + 1) * perExponent + m) % perExponent = m := by
    rw [Nat.mul_comm, Nat.mul_add_mod, Nat.mod_eq_of_lt hm]
  simp only [units, hdiv, hmod, Nat.pow_eq]
  rw [if_neg (Nat.succ_ne_zero s), Nat.add_sub_cancel]

/-- A rank beyond the first exponent has an exponent and a fraction. -/
lemma exists_shift {r : Nat} (h : perExponent ≤ r) :
    ∃ s m, m < perExponent ∧ r = (s + 1) * perExponent + m := by
  have hpos := perExponent_pos
  refine ⟨r / perExponent - 1, r % perExponent, Nat.mod_lt _ hpos, ?_⟩
  have hdiv : 1 ≤ r / perExponent := (Nat.one_le_div_iff hpos).mpr h
  rw [Nat.sub_add_cancel hdiv, Nat.mul_comm]
  exact (Nat.div_add_mod r perExponent).symm

lemma log2_shift {s m : Nat} (hm : m < perExponent) :
    ((perExponent + m) * 2 ^ s).log2 = 52 + s := by
  have hpow : 0 < 2 ^ s := Nat.two_pow_pos s
  have hne : (perExponent + m) * 2 ^ s ≠ 0 :=
    Nat.mul_ne_zero (by have := perExponent_pos; omega) (Nat.ne_of_gt hpow)
  refine (Nat.log2_eq_iff hne).mpr ⟨?_, ?_⟩
  · rw [Nat.pow_add]
    exact Nat.mul_le_mul_right _ (Nat.le_add_right perExponent m)
  · have hsum : 52 + s + 1 = 53 + s := by omega
    rw [hsum, Nat.pow_add]
    refine Nat.mul_lt_mul_of_pos_right ?_ hpow
    have hdouble : 2 ^ 53 = perExponent + perExponent := by decide
    omega

lemma rankOfUnits_units (r : Nat) : rankOfUnits (units r) = r := by
  rcases Nat.lt_or_ge r (2 * perExponent) with hsmall | hlarge
  · rw [units_of_small hsmall, rankOfUnits_of_small hsmall]
  · obtain ⟨s, m, hm, rfl⟩ := exists_shift (r := r) (by omega)
    rw [units_shift hm, rankOfUnits_shift (log2_shift hm),
      Nat.mul_div_cancel _ (Nat.two_pow_pos s), Nat.add_mul]
    omega

lemma units_lt_units_succ (r : Nat) : units r < units (r + 1) := by
  rcases Nat.lt_or_ge (r + 1) (2 * perExponent) with hsmall | hlarge
  · rw [units_of_small (by omega), units_of_small hsmall]
    omega
  · obtain ⟨s, m, hm, rfl⟩ := exists_shift (r := r) (by have := perExponent_pos; omega)
    have hpow : 0 < 2 ^ s := Nat.two_pow_pos s
    rw [units_shift hm]
    rcases Nat.lt_or_ge (m + 1) perExponent with hfits | hcarry
    · rw [Nat.add_assoc, units_shift hfits]
      exact Nat.mul_lt_mul_of_pos_right (by omega) hpow
    · -- the fraction is at its largest, and the next rank begins the next exponent
      have hm' : m + 1 = perExponent := by omega
      have hnext : (s + 1) * perExponent + m + 1 = (s + 1 + 1) * perExponent + 0 := by
        rw [Nat.add_assoc, hm', Nat.add_mul (s + 1), Nat.one_mul]
        exact (Nat.add_zero _).symm
      rw [hnext, units_shift perExponent_pos]
      rw [Nat.pow_succ', ← Nat.mul_assoc]
      exact Nat.mul_lt_mul_of_pos_right (by omega) hpow

/-! ## Values of fractions -/

/-- Which rank is the nearest does not change when a fraction is expanded. -/
lemma nearestRank_expand (num den : Nat) {k : Nat} (hk : 0 < k) :
    nearestRank (num * k) (den * k) = nearestRank num den := by
  have hlt (a b : Nat) : a * k < b * k ↔ a < b := Nat.mul_lt_mul_right hk
  simp only [nearestRank, Nat.mul_div_mul_right num den hk, ← Nat.mul_assoc, hlt]

lemma nearestRank_zero (den : Nat) (hden : 0 < den) : nearestRank 0 den = 0 := by
  have hone : units 0 + units 1 = 1 := by decide
  have hzero : rankOfUnits 0 = 0 := by decide
  have hinf : ¬infiniteRank ≤ 0 := by decide
  simp only [nearestRank, Nat.zero_div, hzero, if_neg hinf, Nat.zero_add, hone, Nat.one_mul,
    Nat.mul_zero, if_pos hden]

/-- The rank that is nearest to the magnitude of a finite rank is that rank. -/
lemma nearestRank_units {r den : Nat} (hr : r < infiniteRank) (hden : 0 < den) :
    nearestRank (units r * den) den = r := by
  have hlower : rankOfUnits (units r * den / den) = r := by
    rw [Nat.mul_div_cancel _ hden, rankOfUnits_units]
  have hmiddle : 2 * (units r * den) < (units r + units (r + 1)) * den := by
    rw [← Nat.mul_assoc]
    have := units_lt_units_succ r
    exact Nat.mul_lt_mul_of_pos_right (by omega) hden
  simp only [nearestRank, hlower, if_neg (Nat.not_le.mpr hr), if_pos hmiddle]

/-- What is less than half a unit is nearest to zero. -/
lemma nearestRank_of_tiny {num den : Nat} (h : 2 * num < den) : nearestRank num den = 0 := by
  have hdiv : num / den = 0 := Nat.div_eq_of_lt (by omega)
  have hone : units 0 + units 1 = 1 := by decide
  have hzero : rankOfUnits 0 = 0 := by decide
  have hinf : ¬infiniteRank ≤ 0 := by decide
  simp only [nearestRank, hdiv, hzero, if_neg hinf, Nat.zero_add, hone, Nat.one_mul, if_pos h]

/-- What has more binary digits than any finite magnitude is nearest to infinity. -/
lemma nearestRank_of_huge {num den : Nat} (h : 2098 ≤ (num / den).log2) :
    nearestRank num den = infiniteRank := by
  have hlower : infiniteRank ≤ rankOfUnits (num / den) := by
    obtain ⟨s, hs⟩ : ∃ s, (num / den).log2 = 52 + s := ⟨(num / den).log2 - 52, by omega⟩
    have hne : num / den ≠ 0 := by
      intro hzero
      rw [hzero] at h
      exact absurd h (by decide)
    have hfirst : perExponent ≤ num / den / 2 ^ s := by
      refine (Nat.le_div_iff_mul_le (Nat.two_pow_pos s)).mpr ?_
      have := Nat.log2_self_le hne
      rwa [hs, Nat.pow_add] at this
    rw [rankOfUnits_shift hs]
    calc infiniteRank ≤ (s + 1) * perExponent := Nat.mul_le_mul_right _ (by omega)
      _ = s * perExponent + perExponent := by rw [Nat.add_mul, Nat.one_mul]
      _ ≤ _ := Nat.add_le_add_left hfirst _
  simp only [nearestRank, if_pos hlower]

end Binary64

end Formulary
