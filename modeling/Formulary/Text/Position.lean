/-
# Places in a text

A position counts three things at once: the bytes of the UTF-8 form before it, the line it is
on and the column in that line.  Everything that reports a place in a text reports a span, the
half-open stretch between two positions.  This file sets up both, together with values that
carry the span they were read from.
-/

namespace Formulary.Text

/-- A place between two characters of a text. -/
structure Position where
  /-- The number of UTF-8 bytes before the place. -/
  byte : Nat := 0
  /-- The line, counted from 1. -/
  line : Nat := 1
  /-- The column, counted from 1 in characters. -/
  column : Nat := 1
deriving DecidableEq, Repr

namespace Position

/-- The beginning of a text. -/
instance : Inhabited Position := ⟨{}⟩

/-- The position right after the character `c` that stands at `p`. -/
def advance (p : Position) (c : Char) : Position :=
  if c = '\n' then ⟨p.byte + c.utf8Size, p.line + 1, 1⟩
  else ⟨p.byte + c.utf8Size, p.line, p.column + 1⟩

/-- The position right after the characters `cs` that stand at `p`. -/
def after (p : Position) (cs : List Char) : Position :=
  cs.foldl advance p

/-- Line and column, as shown to a reader. -/
def display (p : Position) : String :=
  s!"{p.line}:{p.column}"

@[simp] theorem advance_byte (p : Position) (c : Char) :
    (p.advance c).byte = p.byte + c.utf8Size := by
  unfold advance; split <;> rfl

@[simp] theorem after_nil (p : Position) : p.after [] = p := rfl

@[simp] theorem after_cons (p : Position) (c : Char) (cs : List Char) :
    p.after (c :: cs) = (p.advance c).after cs := rfl

theorem after_append (p : Position) (cs ds : List Char) :
    p.after (cs ++ ds) = (p.after cs).after ds := by
  simp [after]

end Position

/-- The stretch of a text from `start` up to, but not including, what follows `stop`. -/
structure Span where
  /-- The first covered position. -/
  start : Position := {}
  /-- The position right after the last covered character. -/
  stop : Position := {}
deriving DecidableEq, Repr

namespace Span

/-- The empty span at the beginning of a text. -/
instance : Inhabited Span := ⟨{}⟩

/-- The empty span at a position. -/
def point (p : Position) : Span := ⟨p, p⟩

/-- A span is empty if no byte lies between its ends. -/
def isEmpty (s : Span) : Bool :=
  s.start.byte == s.stop.byte

/-- The least span that covers both; of ends at the same byte it takes those of `s`. -/
def hull (s t : Span) : Span where
  start := if s.start.byte ≤ t.start.byte then s.start else t.start
  stop := if t.stop.byte ≤ s.stop.byte then s.stop else t.stop

/-- An empty span is shown as a place, any other as a range of places. -/
def display (s : Span) : String :=
  if s.isEmpty then s.start.display else s!"{s.start.display}-{s.stop.display}"

end Span

/-- Splits a text after exactly `n` bytes, if a character ends there. -/
def splitBytes? (n : Nat) : List Char → Option (List Char × List Char)
  | [] => if n = 0 then some ([], []) else none
  | c :: cs =>
    if n = 0 then some ([], c :: cs)
    else if n < c.utf8Size then none
    else (splitBytes? (n - c.utf8Size) cs).map fun (front, back) => (c :: front, back)

/-- The characters of `text` that a span covers, if its ends are in order and stand on ends of
characters. -/
def Span.slice? (s : Span) (text : List Char) : Option (List Char) :=
  if s.stop.byte < s.start.byte then none
  else do
    let (_, back) ← splitBytes? s.start.byte text
    let (middle, _) ← splitBytes? (s.stop.byte - s.start.byte) back
    return middle

/-- A value together with the span it was read from. -/
structure Located (α : Type) where
  /-- The value. -/
  value : α
  /-- Where it was read. -/
  span : Span
deriving DecidableEq, Repr, BEq, Inhabited

/-- Gives every character of a text that begins at `p` the span it covers. -/
def locate (p : Position) : List Char → List (Located Char)
  | [] => []
  | c :: cs => ⟨c, ⟨p, p.advance c⟩⟩ :: locate (p.advance c) cs

@[simp] theorem locate_values (p : Position) (cs : List Char) :
    (locate p cs).map Located.value = cs := by
  induction cs generalizing p with
  | nil => rfl
  | cons c cs ih => simp [locate, ih]

end Formulary.Text
