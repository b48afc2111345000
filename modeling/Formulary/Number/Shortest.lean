/-
# The shortest decimal of a number

A number is written with the fewest digits that are enough to read it back, and of the decimals
with that many digits the one nearest to it.  For every count of digits only the two neighbours
of the number on the grid of such decimals have to be looked at: if any decimal of the grid
reads back, one of them does.
-/
import Formulary.Number.Decimal

namespace Formulary

namespace Decimal

/-- The same decimal without zeros at the end of the coefficient. -/
def trim (d : Decimal) : Decimal :=
  if d.coefficient = 0 then ⟨0, 0⟩
  else if d.coefficient % 10 = 0 then trim ⟨d.coefficient / 10, d.exponent + 1⟩
  else d
termination_by d.coefficient
decreasing_by omega

/-- The digits of the coefficient. -/
def digits (d : Decimal) : List Char := Nat.toDigits 10 d.coefficient

/-- The power of ten of the first digit. -/
def magnitude (d : Decimal) : Int := d.exponent + d.digits.length - 1

end Decimal

namespace Binary64

/-- How far fractions are scaled up to find the first digit of a magnitude; every positive
magnitude is a whole number then. -/
def scale : Nat := 400

/-- The power of ten of the first digit of a positive magnitude. -/
def magnitude (rank : Nat) : Int :=
  ((Nat.toDigits 10 (units rank * Nat.pow 10 scale / unitsOfOne)).length : Int) - 1 - scale

/-- The greatest coefficient of a decimal with the given exponent that is not above a
magnitude. -/
def floorCoefficient (rank : Nat) (exponent : Int) : Nat :=
  if 0 ≤ exponent then units rank / (unitsOfOne * Nat.pow 10 exponent.toNat)
  else units rank * Nat.pow 10 (-exponent).toNat / unitsOfOne

/-- Whether a magnitude is nearer to `c` than to `c + 1` on the grid of decimals with the given
exponent. -/
def nearerToFloor (rank : Nat) (exponent : Int) (c : Nat) : Bool :=
  if 0 ≤ exponent then
    2 * units rank < (2 * c + 1) * (unitsOfOne * Nat.pow 10 exponent.toNat)
  else
    2 * units rank * Nat.pow 10 (-exponent).toNat < (2 * c + 1) * unitsOfOne

/-- The nearest decimal with `count` digits that reads back as the magnitude, if there is one.
Of two equally near ones it is the larger. -/
def withDigits? (rank count : Nat) : Option Decimal :=
  let exponent := magnitude rank + 1 - count
  let c := floorCoefficient rank exponent
  let below : Decimal := ⟨c, exponent⟩
  let above : Decimal := ⟨c + 1, exponent⟩
  let order := if nearerToFloor rank exponent c then [below, above] else [above, below]
  order.find? fun d => d.nearestRank == rank

/-- The decimal that is equal to a magnitude. -/
def exactDecimal (rank : Nat) : Decimal := ⟨units rank * Nat.pow 5 1074, -1074⟩

/-- The shortest decimal that reads back as a finite magnitude.  Seventeen digits are always
enough. -/
def shortest (rank : Nat) : Decimal :=
  if rank = 0 then ⟨0, 0⟩
  else (((List.range' 1 17).findSome? (withDigits? rank)).getD (exactDecimal rank)).trim

end Binary64

end Formulary
