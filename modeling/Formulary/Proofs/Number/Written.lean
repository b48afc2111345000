/-
# Written numbers read back

In a program a finite number is written as a numeral: a sign, digits, and perhaps a point with
more digits.  Whatever the place of the point, the numeral reads back as the number, the sign of
zero included.
-/
import Formulary.Proofs.Data.Lists
import Formulary.Number.Written
import Formulary.Proofs.Number.Shortest

namespace Formulary

/-- A number as it is set out in a program. -/
structure Numeral where
  /-- Whether there is a minus in front. -/
  negative : Bool
  /-- The digits before the point. -/
  whole : List Char
  /-- The digits after the point; for want of them there is no point. -/
  fraction : List Char
  /-- There are digits before the point. -/
  whole_ne_nil : whole ≠ []
  /-- All of the digits are digits. -/
  isDigit_of_mem : ∀ c ∈ whole ++ fraction, c.isDigit = true

namespace Numeral

/-- The sign, or nothing. -/
def sign (n : Numeral) : List Char := if n.negative then ['-'] else []

/-- The point and the digits after it, or nothing. -/
def tail (n : Numeral) : List Char := if n.fraction = [] then [] else '.' :: n.fraction

/-- The characters of a numeral. -/
def text (n : Numeral) : List Char := n.sign ++ n.whole ++ n.tail

/-- The digits after the point, which are a zero if there is none. -/
def fullFraction (n : Numeral) : List Char := if n.fraction = [] then ['0'] else n.fraction

/-- The decimal that a numeral stands for, its sign aside. -/
def decimal (n : Numeral) : Decimal :=
  ⟨Decimal.ofDigits (n.whole ++ n.fullFraction), -(n.fullFraction.length : Int)⟩

/-- The number that a numeral is read as. -/
def value (n : Numeral) : Binary64 := n.decimal.nearest n.negative

end Numeral

namespace Decimal

/-! ## Digits -/

lemma ofDigits_eq (ds : List Char) : ofDigits ds = Nat.ofDigitChars 10 ds 0 := rfl

lemma ofDigits_digits (d : Decimal) : ofDigits d.digits = d.coefficient :=
  Nat.ofDigitChars_ten_toDigits

/-- Zeros in front of digits do not count. -/
lemma ofDigits_zeros_append (n : Nat) (ds : List Char) : ofDigits (zeros n ++ ds) = ofDigits ds := by
  rw [ofDigits_eq, Nat.ofDigitChars_append, zeros, Nat.ofDigitChars_replicate_zero, Nat.mul_zero,
    ← ofDigits_eq]

/-- Zeros after digits shift them. -/
lemma ofDigits_append_zeros (ds : List Char) (n : Nat) :
    ofDigits (ds ++ zeros n) = ofDigits ds * 10 ^ n := by
  rw [ofDigits_eq, Nat.ofDigitChars_append, zeros, Nat.ofDigitChars_replicate_zero, Nat.mul_comm,
    ← ofDigits_eq]

lemma digits_ne_nil (d : Decimal) : d.digits ≠ [] := Nat.toDigits_ne_nil

lemma isDigit_of_mem_digits {d : Decimal} {c : Char} (h : c ∈ d.digits) : c.isDigit = true :=
  Nat.isDigit_of_mem_toDigits (by decide) (by decide) h

lemma isDigit_of_mem_zeros {n : Nat} {c : Char} (h : c ∈ zeros n) : c.isDigit = true := by
  rw [List.eq_of_mem_replicate h]
  rfl

end Decimal

open Decimal

namespace Numeral

/-! ## Reading a numeral -/

lemma isDigit_of_mem_fullFraction (n : Numeral) {c : Char} (h : c ∈ n.fullFraction) :
    c.isDigit = true := by
  unfold fullFraction at h
  split at h
  · rw [List.mem_singleton.mp h]
    rfl
  · exact n.isDigit_of_mem c (List.mem_append_right _ h)

lemma splitSign_of_digits {ds cs : List Char} (hne : ds ≠ [])
    (hds : ∀ c ∈ ds, c.isDigit = true) : splitSign (ds ++ cs) = (false, ds ++ cs) := by
  cases ds with
  | nil => exact absurd rfl hne
  | cons d ds =>
    have hd := hds d List.mem_cons_self
    unfold splitSign
    split
    · rename_i heq
      rw [List.cons_append, List.cons.injEq] at heq
      rw [heq.1] at hd
      exact absurd hd (by decide)
    · rename_i heq
      rw [List.cons_append, List.cons.injEq] at heq
      rw [heq.1] at hd
      exact absurd hd (by decide)
    · rfl

/-- A numeral with its point reads as the number that it stands for. -/
lemma read?_eq (n : Numeral) :
    Binary64.read? (n.sign ++ n.whole ++ '.' :: n.fullFraction) = some n.value := by
  have hwhole : ∀ c ∈ n.whole, c.isDigit = true := fun c hc =>
    n.isDigit_of_mem c (List.mem_append_left _ hc)
  have hsign : splitSign (n.sign ++ n.whole ++ '.' :: n.fullFraction) =
      (n.negative, n.whole ++ '.' :: n.fullFraction) := by
    unfold sign
    cases n.negative with
    | true => rfl
    | false => exact splitSign_of_digits n.whole_ne_nil hwhole
  have hpoint : ∀ c ∈ ('.' :: n.fullFraction).head?, c.isDigit = false := by
    intro c hc
    cases hc
    rfl
  have hend : ∀ c ∈ ([] : List Char).head?, c.isDigit = false := nofun
  have hfraction := takeWhile_run (fun c hc => n.isDigit_of_mem_fullFraction hc) hend
  have hrest := dropWhile_run (fun c hc => n.isDigit_of_mem_fullFraction hc) hend
  rw [List.append_nil] at hfraction hrest
  have hread : Decimal.read? (n.sign ++ n.whole ++ '.' :: n.fullFraction) =
      some (n.negative, n.decimal) := by
    simp only [Decimal.read?, hsign, takeWhile_run hwhole hpoint, dropWhile_run hwhole hpoint,
      splitFraction, hfraction, hrest, n.whole_ne_nil, false_and,
      if_false, readExponent?]
    simp [decimal]
  rw [Binary64.read?, hread]
  rfl

end Numeral

/-! ## Writing a number -/

namespace Decimal

/-- The digits of a decimal without negative power of ten and the zeros that it stands for. -/
lemma exists_numeral_of_whole {d : Decimal} (he : 0 ≤ d.exponent) (negative : Bool) :
    ∃ n : Numeral, n.negative = negative ∧
      n.whole ++ n.tail = d.digits ++ zeros d.exponent.toNat ∧
      n.decimal.nearestRank = d.nearestRank := by
  have hall : ∀ c ∈ d.digits ++ zeros d.exponent.toNat ++ [], c.isDigit = true := by
    intro c hc
    rw [List.append_nil] at hc
    exact (List.mem_append.mp hc).elim isDigit_of_mem_digits isDigit_of_mem_zeros
  have hne : d.digits ++ zeros d.exponent.toNat ≠ [] := by simp [digits_ne_nil]
  refine ⟨⟨negative, _, [], hne, hall⟩, rfl, by simp [Numeral.tail], ?_⟩
  have hvalue : ofDigits (d.digits ++ zeros d.exponent.toNat ++ ['0']) =
      d.coefficient * 10 ^ (d.exponent.toNat + 1) := by
    have hzeros : zeros d.exponent.toNat ++ ['0'] = zeros (d.exponent.toNat + 1) :=
      List.replicate_succ'.symm
    rw [List.append_assoc, hzeros, ofDigits_append_zeros, ofDigits_digits]
  have hshift := nearestRank_shift d.coefficient d.exponent (d.exponent.toNat + 1)
  have hexp : d.exponent - ((d.exponent.toNat + 1 : Nat) : Int) = -(1 : Int) := by omega
  rw [hexp, ← hvalue] at hshift
  exact hshift

/-- Digits on both sides of the point that are the coefficient together. -/
lemma exists_numeral_of_fraction {d : Decimal} (whole fraction : List Char) (hwhole : whole ≠ [])
    (hfraction : fraction ≠ []) (hall : ∀ c ∈ whole ++ fraction, c.isDigit = true)
    (hcoefficient : ofDigits (whole ++ fraction) = d.coefficient)
    (hexponent : -(fraction.length : Int) = d.exponent) (negative : Bool) :
    ∃ n : Numeral, n.negative = negative ∧ n.whole ++ n.tail = whole ++ '.' :: fraction ∧
      n.decimal.nearestRank = d.nearestRank := by
  refine ⟨⟨negative, whole, fraction, hwhole, hall⟩, rfl, by simp [Numeral.tail, hfraction], ?_⟩
  have hdecimal : (⟨negative, whole, fraction, hwhole, hall⟩ : Numeral).decimal = d := by
    simp only [Numeral.decimal, Numeral.fullFraction, if_neg hfraction, hcoefficient, hexponent]
  rw [hdecimal]

/-- A decimal is set out as digits with a point in some place, and none of its value is lost. -/
lemma exists_numeral_of_positional (d : Decimal) (negative : Bool) :
    ∃ n : Numeral, n.negative = negative ∧ n.whole ++ n.tail = d.positional "" ∧
      n.decimal.nearestRank = d.nearestRank := by
  have hpos : 0 < d.digits.length := Nat.length_toDigits_pos
  by_cases hwhole : 0 ≤ d.exponent
  · rw [positional, if_pos hwhole, String.toList_empty, List.append_nil]
    exact exists_numeral_of_whole hwhole negative
  · rw [positional, if_neg hwhole]
    dsimp only
    split
    · -- the point is among the digits
      rename_i hbefore
      refine exists_numeral_of_fraction _ _ ?_ ?_ ?_ ?_ ?_ negative
      · rw [Ne, List.take_eq_nil_iff]
        rintro (hzero | hnil)
        · omega
        · exact digits_ne_nil d hnil
      · rw [Ne, List.drop_eq_nil_iff]
        omega
      · rw [List.take_append_drop]
        exact fun c hc => isDigit_of_mem_digits hc
      · rw [List.take_append_drop, ofDigits_digits]
      · rw [List.length_drop]
        omega
    · -- the point is in front of the digits
      rename_i hbefore
      rw [List.cons_append, List.cons_append]
      refine exists_numeral_of_fraction ['0'] _ ?_ ?_ ?_ ?_ ?_ negative
      · exact List.cons_ne_nil _ _
      · simp [digits_ne_nil]
      · intro c hc
        rw [List.singleton_append, List.mem_cons] at hc
        rcases hc with rfl | hc
        · rfl
        · exact (List.mem_append.mp hc).elim isDigit_of_mem_zeros isDigit_of_mem_digits
      · exact (ofDigits_zeros_append 1 _).trans
          ((ofDigits_zeros_append _ _).trans (ofDigits_digits d))
      · rw [List.length_append, zeros, List.length_replicate]
        omega

end Decimal

/-- A finite number is written as a numeral that reads back as the number. -/
theorem Binary64.exists_numeral {x : Binary64} (h : x.isFinite = true) :
    ∃ n : Numeral, (x.write .program).toList = n.text ∧ n.value = x := by
  have hrank : x.rank < infiniteRank := of_decide_eq_true h
  have hnumber : x.isNaN = false := decide_eq_false (Nat.not_lt.mpr (Nat.le_of_lt hrank))
  obtain ⟨n, hsign, htext, hvalue⟩ := exists_numeral_of_positional (shortest x.rank) x.negative
  refine ⟨n, ?_, ?_⟩
  · have hstyle : (shortest x.rank).write .program = n.whole ++ n.tail := by
      rw [htext]
      rfl
    rw [Binary64.write, hnumber]
    simp only [h, hstyle, if_true, Bool.false_eq_true, if_false, String.toList_append,
      String.toList_ofList]
    rw [Numeral.text, Numeral.sign, hsign, List.append_assoc]
    cases x.negative <;> rfl
  · have hback : n.decimal.nearestRank = x.rank := hvalue.trans (nearestRank_shortest hrank)
    cases x with
    | mk negative rank rank_lt =>
      simp only [Numeral.value, Decimal.nearest, ofRank, hback, hsign]

end Formulary
