/-
# Decimal numbers

A decimal is a coefficient and a power of ten.  This file reads decimals from text and gives the
binary64 number nearest to a decimal, computed exactly.
-/
import Formulary.Number.Binary64

namespace Formulary

/-- The number `coefficient * 10 ^ exponent`. -/
structure Decimal where
  /-- A whole number. -/
  coefficient : Nat
  /-- The power of ten that it is multiplied by. -/
  exponent : Int
deriving DecidableEq, Repr

namespace Decimal

/-! ## Nearest number of the binary64 format -/

/-- The rank of the magnitude nearest to a decimal.  A decimal whose exponent alone puts it
beyond all finite magnitudes, or below half a unit, is answered without computing its power of
ten. -/
def nearestRank (d : Decimal) : Nat :=
  if d.coefficient = 0 then 0
  else if 400 < d.exponent then Binary64.infiniteRank
  else if 0 ≤ d.exponent then
    Binary64.nearestRank (d.coefficient * Nat.pow 10 d.exponent.toNat * Binary64.unitsOfOne) 1
  else if d.coefficient.log2 + 1080 < 3 * (-d.exponent).toNat then 0
  else Binary64.nearestRank (d.coefficient * Binary64.unitsOfOne) (Nat.pow 10 (-d.exponent).toNat)

theorem nearestRank_le (d : Decimal) : d.nearestRank ≤ Binary64.infiniteRank := by
  unfold nearestRank
  repeat' split
  all_goals first
    | exact Nat.zero_le _
    | exact Nat.le_refl _
    | exact Binary64.nearestRank_le _ _

/-- The number nearest to a decimal with a sign. -/
def nearest (negative : Bool) (d : Decimal) : Binary64 :=
  Binary64.ofRank negative d.nearestRank d.nearestRank_le

/-! ## Reading -/

/-- The number that is written by decimal digits. -/
def ofDigits (digits : List Char) : Nat :=
  digits.foldl (fun n c => 10 * n + (c.toNat - '0'.toNat)) 0

/-- Splits off a sign; whether it is a minus. -/
def splitSign : List Char → Bool × List Char
  | '-' :: cs => (true, cs)
  | '+' :: cs => (false, cs)
  | cs => (false, cs)

/-- Splits off a point and the digits after it. -/
def splitFraction : List Char → List Char × List Char
  | '.' :: cs => (cs.takeWhile Char.isDigit, cs.dropWhile Char.isDigit)
  | cs => ([], cs)

/-- Reads what follows the digits: nothing, or the letter e and a power of ten. -/
def readExponent? : List Char → Option Int
  | [] => some 0
  | c :: cs =>
    if c = 'e' ∨ c = 'E' then
      let (negative, digits) := splitSign cs
      if digits ≠ [] ∧ digits.all Char.isDigit then
        some (if negative then -(ofDigits digits : Int) else ofDigits digits)
      else none
    else none

/-- Reads a decimal with a sign.  Digits are needed on one side of the point at least. -/
def read? (text : List Char) : Option (Bool × Decimal) :=
  let (negative, cs) := splitSign text
  let whole := cs.takeWhile Char.isDigit
  let (fraction, tail) := splitFraction (cs.dropWhile Char.isDigit)
  if whole = [] ∧ fraction = [] then none
  else do
    let exponent ← readExponent? tail
    return (negative, ⟨ofDigits (whole ++ fraction), exponent - fraction.length⟩)

end Decimal

/-- Reads the number nearest to a written decimal. -/
def Binary64.read? (text : List Char) : Option Binary64 :=
  (Decimal.read? text).map fun (negative, d) => d.nearest negative

end Formulary
