/-
# Written numbers

How the shortest decimal of a number is set out: with the point in its place, or, where a style
asks for it, as digits and a power of ten.  Programs, debugging descriptions and records write
numbers in three styles, which are named at the end.
-/
import Formulary.Number.Shortest

namespace Formulary

/-- The decisions a style of writing makes. -/
structure NumberStyle where
  /-- What is put after a whole number. -/
  wholeEnding : String
  /-- Whether a number whose first digit has this power of ten is written without an
  exponent. -/
  isPositional : Int → Bool

namespace Decimal

/-- A row of zeros. -/
def zeros (n : Nat) : List Char := List.replicate n '0'

/-- A decimal with the point in its place.  `wholeEnding` is put after a whole number. -/
def positional (wholeEnding : String) (d : Decimal) : List Char :=
  if 0 ≤ d.exponent then d.digits ++ zeros d.exponent.toNat ++ wholeEnding.toList
  else
    let before := (d.digits.length : Int) + d.exponent
    if 0 < before then d.digits.take before.toNat ++ '.' :: d.digits.drop before.toNat
    else '0' :: '.' :: zeros (-before).toNat ++ d.digits

/-- A decimal as its digits, with a point after the first, and a power of ten. -/
def scientific (d : Decimal) : List Char :=
  let point := if d.digits.length ≤ 1 then [] else ['.']
  d.digits.take 1 ++ point ++ d.digits.drop 1 ++ 'e' :: (toString d.magnitude).toList

/-- A decimal as a style has it. -/
def write (style : NumberStyle) (d : Decimal) : List Char :=
  if style.isPositional d.magnitude then d.positional style.wholeEnding else d.scientific

end Decimal

/-- A number as a style has it. -/
def Binary64.write (style : NumberStyle) (x : Binary64) : String :=
  if x.isNaN then "NaN"
  else
    let sign := if x.negative then "-" else ""
    if x.isFinite then sign ++ String.ofList ((shortest x.rank).write style) else sign ++ "inf"

namespace NumberStyle

/-- In programs a number never has an exponent, and a whole number has no point. -/
def program : NumberStyle := ⟨"", fun _ => true⟩

/-- In records a number never has an exponent, and a whole number ends in a point and a zero. -/
def record : NumberStyle := ⟨".0", fun _ => true⟩

/-- In debugging descriptions very large and very small numbers have an exponent; a whole number
without one ends in a point and a zero. -/
def debug : NumberStyle := ⟨".0", fun magnitude => -4 ≤ magnitude && magnitude < 16⟩

end NumberStyle

end Formulary
