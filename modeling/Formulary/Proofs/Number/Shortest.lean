/-
# The shortest decimal reads back

Moving zeros between the coefficient of a decimal and its power of ten leaves its nearest number
as it is.  So the shortest decimal of a finite magnitude is nearest to that magnitude, both where
the search finds it and where the exact decimal has to do.
-/
import Formulary.Number.Shortest
import Formulary.Proofs.Number.Nearest

namespace Formulary.Decimal

open Binary64

/-- The units of a one as a power of two.  The exponent is a variable, so that the power is never
computed. -/
lemma exists_unitsOfOne_eq : ∃ w, w = 1074 ∧ unitsOfOne = Nat.pow 2 w := by
  unfold unitsOfOne
  exact ⟨1074, rfl, rfl⟩

lemma unitsOfOne_pos : 0 < unitsOfOne := by
  obtain ⟨w, -, hw⟩ := exists_unitsOfOne_eq
  rw [hw]
  exact Nat.two_pow_pos w

/-! ## The nearest rank by its definition -/

/-- A decimal without negative power of ten is a whole number; with more than 400 zeros it is
beyond all finite magnitudes. -/
lemma nearestRank_of_vast {c e : Nat} (hc : c ≠ 0) (he : 400 < e) :
    Binary64.nearestRank (c * 10 ^ e * unitsOfOne) 1 = infiniteRank := by
  obtain ⟨w, hvalue, hw⟩ := exists_unitsOfOne_eq
  apply nearestRank_of_huge
  have hbase : 2 ^ (3 * e) ≤ 10 ^ e := by
    rw [Nat.pow_mul]
    exact Nat.pow_le_pow_left (by decide) e
  have hlarge : 2 ^ (3 * e + w) ≤ c * 10 ^ e * unitsOfOne := by
    rw [hw, Nat.pow_eq, Nat.pow_add]
    exact Nat.mul_le_mul_right _
      (Nat.le_trans hbase (Nat.le_mul_of_pos_left _ (Nat.pos_of_ne_zero hc)))
  have hne : c * 10 ^ e * unitsOfOne ≠ 0 :=
    Nat.ne_of_gt (Nat.lt_of_lt_of_le (Nat.two_pow_pos _) hlarge)
  have hlog := (Nat.le_log2 hne).mpr hlarge
  rw [Nat.div_one]
  omega

/-- With enough digits after the point a decimal is less than half a unit. -/
lemma nearestRank_of_slight {c k : Nat} (hk : c.log2 + 1080 < 3 * k) :
    Binary64.nearestRank (c * unitsOfOne) (10 ^ k) = 0 := by
  obtain ⟨w, hvalue, hw⟩ := exists_unitsOfOne_eq
  apply nearestRank_of_tiny
  have hc : c < 2 ^ (c.log2 + 1) := Nat.lt_log2_self
  calc 2 * (c * unitsOfOne) < 2 * (2 ^ (c.log2 + 1) * unitsOfOne) :=
        Nat.mul_lt_mul_of_pos_left (Nat.mul_lt_mul_of_pos_right hc unitsOfOne_pos) (by decide)
    _ = 2 ^ (c.log2 + 1 + w + 1) := by
        rw [hw, Nat.pow_eq, ← Nat.pow_add, ← Nat.pow_succ']
    _ ≤ 2 ^ (3 * k) := Nat.pow_le_pow_right (by decide) (by omega)
    _ ≤ 10 ^ k := by
        rw [Nat.pow_mul]
        exact Nat.pow_le_pow_left (by decide) k

/-- The shortcuts aside, the nearest rank is that of the fraction which a decimal stands for. -/
lemma nearestRank_eq (d : Decimal) :
    d.nearestRank = Binary64.nearestRank (d.coefficient * 10 ^ d.exponent.toNat * unitsOfOne)
      (10 ^ (-d.exponent).toNat) := by
  unfold nearestRank
  simp only [Nat.pow_eq]
  split
  · rename_i hc
    rw [hc, Nat.zero_mul, Nat.zero_mul, nearestRank_zero _ (Nat.pow_pos (by decide))]
  · rename_i hc
    split
    · rename_i he
      have hneg : (-d.exponent).toNat = 0 := by omega
      rw [hneg, Nat.pow_zero, nearestRank_of_vast hc (by omega)]
    · split
      · rename_i he
        have hneg : (-d.exponent).toNat = 0 := by omega
        rw [hneg, Nat.pow_zero]
      · rename_i he
        have hpos : d.exponent.toNat = 0 := by omega
        rw [hpos, Nat.pow_zero, Nat.mul_one]
        split
        · rename_i hk
          rw [nearestRank_of_slight hk]
        · rfl

/-! ## Moving zeros -/

lemma nearestRank_times_ten (c : Nat) (e : Int) :
    nearestRank ⟨c * 10, e - 1⟩ = nearestRank ⟨c, e⟩ := by
  rw [nearestRank_eq, nearestRank_eq]
  dsimp only
  by_cases hpos : 0 < e
  · have hdown : (-(e - 1)).toNat = (-e).toNat := by omega
    have hup : e.toNat = (e - 1).toNat + 1 := by omega
    rw [hdown, hup, Nat.pow_succ', ← Nat.mul_assoc]
  · have hdown : (-(e - 1)).toNat = (-e).toNat + 1 := by omega
    have hup : (e - 1).toNat = e.toNat := by omega
    rw [hdown, hup, Nat.pow_succ]
    have hmove : c * 10 * 10 ^ e.toNat * unitsOfOne = c * 10 ^ e.toNat * unitsOfOne * 10 := by
      rw [Nat.mul_right_comm c 10, Nat.mul_right_comm _ 10]
    rw [hmove, nearestRank_expand _ _ (by decide)]

/-- Zeros may be moved from the power of ten to the end of the coefficient. -/
lemma nearestRank_shift (c : Nat) (e : Int) (k : Nat) :
    nearestRank ⟨c * 10 ^ k, e - k⟩ = nearestRank ⟨c, e⟩ := by
  induction k with
  | zero => simp
  | succ k ih =>
    have hexp : e - ((k + 1 : Nat) : Int) = e - k - 1 := by omega
    rw [hexp, Nat.pow_succ, ← Nat.mul_assoc, nearestRank_times_ten, ih]

lemma nearestRank_trim (d : Decimal) : d.trim.nearestRank = d.nearestRank := by
  fun_induction trim d with
  | case1 d hzero => simp [nearestRank, hzero]
  | case2 d hne hmod ih =>
    have hten : d.coefficient / 10 * 10 = d.coefficient := Nat.div_mul_cancel (by omega)
    have h := nearestRank_times_ten (d.coefficient / 10) (d.exponent + 1)
    rw [hten, Int.add_sub_cancel] at h
    rw [ih, ← h]
  | case3 d hne hmod => rfl

end Formulary.Decimal

namespace Formulary.Binary64

open Decimal

/-! ## The shortest decimal -/

lemma nearestRank_exactDecimal {rank : Nat} (h : rank < infiniteRank) :
    (exactDecimal rank).nearestRank = rank := by
  obtain ⟨w, hvalue, hw⟩ := exists_unitsOfOne_eq
  have hexact : exactDecimal rank = ⟨units rank * Nat.pow 5 w, -w⟩ := by
    rw [hvalue]
    rfl
  have hten : units rank * 5 ^ w * unitsOfOne = units rank * 10 ^ w := by
    rw [hw, Nat.mul_assoc, Nat.pow_eq, ← Nat.mul_pow]
  have hup : (-(w : Int)).toNat = 0 := by omega
  have hdown : (- -(w : Int)).toNat = w := by omega
  rw [nearestRank_eq, hexact]
  dsimp only
  rw [hup, hdown, Nat.pow_zero, Nat.mul_one, Nat.pow_eq, hten]
  exact nearestRank_units h (Nat.pow_pos (by decide))

/-- What the search with a count of digits finds reads back. -/
lemma nearestRank_of_withDigits? {rank count : Nat} {d : Decimal}
    (h : withDigits? rank count = some d) : d.nearestRank = rank := by
  have hfound := List.find?_some h
  exact beq_iff_eq.mp hfound

theorem nearestRank_shortest {rank : Nat} (h : rank < infiniteRank) :
    (shortest rank).nearestRank = rank := by
  unfold shortest
  split
  · rename_i hzero
    rw [hzero]
    rfl
  · rw [nearestRank_trim]
    cases hfind : (List.range' 1 17).findSome? (withDigits? rank) with
    | none => exact nearestRank_exactDecimal h
    | some d =>
      obtain ⟨count, -, hcount⟩ := List.exists_of_findSome?_eq_some hfind
      exact nearestRank_of_withDigits? hcount

end Formulary.Binary64
