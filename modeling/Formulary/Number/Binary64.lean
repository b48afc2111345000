/-
# Numbers of the binary64 format

A number is a sign and a rank.  The ranks of the format count its magnitudes upwards, zero being
the first and infinity the last that is a number, so that the next larger magnitude has the next
rank.  A finite magnitude is a whole multiple of the least positive one, the unit of the format;
`units` gives the multiple.  All further work on numbers is arithmetic on these natural numbers.
-/

namespace Formulary

/-- A number of the binary64 format. -/
structure Binary64 where
  /-- Whether the sign is a minus; zero has both signs. -/
  negative : Bool
  /-- The place of the magnitude among those of the format. -/
  rank : Nat
  /-- There are no more ranks than bits besides the sign can tell apart. -/
  rank_lt : rank < Nat.pow 2 63
deriving DecidableEq, Repr

namespace Binary64

/-- The number of ranks that share an exponent. -/
def perExponent : Nat := Nat.pow 2 52

/-- The rank of infinity.  The ranks above it are not numbers. -/
def infiniteRank : Nat := 2047 * perExponent

/-- The number of units in a one. -/
def unitsOfOne : Nat := Nat.pow 2 1074

/-- The number with a sign and a rank up to that of infinity. -/
def ofRank (negative : Bool) (rank : Nat) (h : rank ≤ infiniteRank) : Binary64 where
  negative := negative
  rank := rank
  rank_lt := Nat.lt_of_le_of_lt h (by decide)

/-- The number zero. -/
def zero : Binary64 := ofRank false 0 (Nat.zero_le _)

instance : Inhabited Binary64 := ⟨zero⟩

/-- The number with the given 64 bits. -/
def ofBits (bits : Nat) : Binary64 where
  negative := bits / Nat.pow 2 63 % 2 == 1
  rank := bits % Nat.pow 2 63
  rank_lt := Nat.mod_lt _ (by decide)

/-- The 64 bits of a number. -/
def toBits (x : Binary64) : Nat :=
  (if x.negative then Nat.pow 2 63 else 0) + x.rank

/-- Whether a number is neither infinite nor missing. -/
def isFinite (x : Binary64) : Bool := x.rank < infiniteRank

/-- Whether this is not a number. -/
def isNaN (x : Binary64) : Bool := infiniteRank < x.rank

/-- Whether a number is zero of either sign. -/
def isZero (x : Binary64) : Bool := x.rank == 0

/-- Whether two numbers have the same value: the two zeros do, and what is not a number has the
value of nothing. -/
def alike (x y : Binary64) : Bool :=
  !x.isNaN && x.rank == y.rank && (x.negative == y.negative || x.isZero)

/-- The magnitude of a rank in units.  Up to the second exponent ranks and units agree; from
there each exponent doubles the step between neighbours. -/
def units (rank : Nat) : Nat :=
  let exponent := rank / perExponent
  if exponent = 0 then rank
  else (perExponent + rank % perExponent) * Nat.pow 2 (exponent - 1)

/-- The greatest rank with at most `n` units. -/
def rankOfUnits (n : Nat) : Nat :=
  let shift := n.log2 - 52
  shift * perExponent + n / Nat.pow 2 shift

/-- The rank of the magnitude that is nearest to `num / den` units.  Of two equally near ones
the even rank is taken; what lies beyond the greatest finite magnitude is infinite as soon as it
is at least half a step away. -/
def nearestRank (num den : Nat) : Nat :=
  let lower := rankOfUnits (num / den)
  if infiniteRank ≤ lower then infiniteRank
  else
    let middle := (units lower + units (lower + 1)) * den
    if 2 * num < middle then lower
    else if middle < 2 * num then lower + 1
    else if lower % 2 = 0 then lower
    else lower + 1

theorem nearestRank_le (num den : Nat) : nearestRank num den ≤ infiniteRank := by
  unfold nearestRank
  dsimp only
  split
  · exact Nat.le_refl _
  · split
    · omega
    · split
      · omega
      · split <;> omega

end Binary64

end Formulary
