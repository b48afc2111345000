/-
# Patterns

A pattern recognises the longest stretch of a kind of text at the front of a text.  It carries
the form in which it is quoted in messages.  The small combinators below are enough for the
patterns of the language: each says how many characters it takes, if it matches at all.
-/

namespace Formulary.Parsing

/-- A kind of text that can stand at the front of another. -/
structure Pattern (ι : Type) where
  /-- The pattern as it is quoted in messages. -/
  source : String
  /-- The number of items that the pattern takes, if it matches. -/
  length? : List ι → Option Nat

namespace Pattern

variable {ι : Type}

/-- The number of items up to the first that is not in the class. -/
def runLength (inClass : ι → Bool) (items : List ι) : Nat :=
  (items.takeWhile inClass).length

/-- One or more items of a class. -/
def oneOrMore (source : String) (inClass : ι → Bool) : Pattern ι where
  source := source
  length? items := if runLength inClass items = 0 then none else some (runLength inClass items)

/-- Any number of items of a class, possibly none. -/
def zeroOrMore (source : String) (inClass : ι → Bool) : Pattern ι where
  source := source
  length? items := some (runLength inClass items)

end Pattern

end Formulary.Parsing
