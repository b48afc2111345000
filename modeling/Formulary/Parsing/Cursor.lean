/-
# Cursors

A parser reads a row of located items, be they the characters of a text or the tokens of a
group.  A cursor stands between two of them: it holds the items to come, the one just passed,
and the failures recorded since it last moved.  Speculative reading works on a fork of the
cursor, which is adopted if the branch succeeds and dropped otherwise.

An item has a width, the amount by which passing it raises the offset of the cursor: the bytes
of a character, and one for a token.
-/
import Formulary.Parsing.Failure
import Formulary.Text.Quoted

namespace Formulary.Parsing

open Text

/-- What a parser reads one by one. -/
class Item (ι : Type) where
  /-- How far passing an item raises the offset. -/
  width : ι → Nat
  /-- The item as it is named in messages. -/
  describe : ι → String

/-- A character is as wide as its UTF-8 form and is named in quotes. -/
instance : Item Char where
  width := Char.utf8Size
  describe := quotedChar

/-- A place between two items of a row. -/
structure Cursor (ι : Type) where
  /-- The items to come. -/
  rest : List (Located ι)
  /-- The item just passed, if there is one. -/
  previous : Option (Located ι)
  /-- Where the row begins. -/
  start : Position
  /-- Where the row ends. -/
  stop : Position
  /-- The total width of the items passed. -/
  offset : Nat
  /-- The failures recorded since the cursor last moved, the oldest first. -/
  pending : List Failure

namespace Cursor

variable {ι : Type}

/-- The cursor before a row of items that are enclosed by a span. -/
def before (items : List (Located ι)) (span : Span) : Cursor ι :=
  ⟨items, none, span.start, span.stop, 0, []⟩

/-- The cursor at the beginning of a text. -/
def ofText (text : List Char) : Cursor Char :=
  before (locate {} text) ⟨{}, Position.after {} text⟩

/-- Whether no item is left. -/
def atEnd (c : Cursor ι) : Bool := c.rest.isEmpty

/-- The next item. -/
def next? (c : Cursor ι) : Option ι := c.rest.head?.map Located.value

/-- The items to come, without their places. -/
def upcoming (c : Cursor ι) : List ι := c.rest.map Located.value

/-- The span of the next item, or the empty span at the end of the row. -/
def span (c : Cursor ι) : Span :=
  match c.rest with
  | [] => Span.point c.stop
  | item :: _ => item.span

/-- The position in front of the next item. -/
def position (c : Cursor ι) : Position := c.span.start

/-- The position right after the item just passed, or the beginning of the row. -/
def previousEnd (c : Cursor ι) : Position :=
  match c.previous with
  | none => c.start
  | some item => item.span.stop

/-- The span from the beginning of `s` up to the item just passed. -/
def spanFrom (c : Cursor ι) (s : Span) : Span := ⟨s.start, c.previousEnd⟩

/-- The cursor after `item`, which was the first of the items to come; the others are `rest`. -/
def pass [Item ι] (c : Cursor ι) (item : Located ι) (rest : List (Located ι)) : Cursor ι :=
  { c with
    rest := rest
    previous := some item
    offset := c.offset + Item.width item.value
    pending := [] }

/-- The next item as it is named in messages. -/
def describeNext [Item ι] (c : Cursor ι) : String :=
  match c.rest with
  | [] => "end of input"
  | item :: _ => Item.describe item.value

/-- Notes a failure at the current place. -/
def record (c : Cursor ι) (f : Failure) : Cursor ι :=
  { c with pending := c.pending ++ [f] }

/-- A copy of the cursor for speculative reading, with nothing recorded. -/
def fork (c : Cursor ι) : Cursor ι := { c with pending := [] }

/-- Goes on from `fork`, which was read successfully.  If it did not move, what was recorded
before it still applies. -/
def adopt (c fork : Cursor ι) : Cursor ι :=
  if fork.offset = c.offset then { fork with pending := c.pending ++ fork.pending } else fork

/-- The failure to report here: the furthest of those recorded, or `fallback` for want of
one. -/
def blame (c : Cursor ι) (fallback : String) : Failure :=
  (Failure.furthest? c.pending).getD (Failure.because c.span fallback)

@[simp] theorem rest_adopt (c fork : Cursor ι) : (c.adopt fork).rest = fork.rest := by
  unfold adopt; split <;> rfl

/-- What is said of a next item that nothing accepts. -/
def unexpected [Item ι] (c : Cursor ι) : String := s!"unexpected {c.describeNext}"

end Cursor

/-- A parser moves a cursor and gives a value or a failure.  A failed parser leaves the cursor
where the failure arose. -/
abbrev Parser (ι α : Type) := EStateM Failure (Cursor ι) α

/-- What a parser gives: a value or a failure, and the cursor. -/
abbrev Outcome (ι α : Type) := EStateM.Result Failure (Cursor ι) α

/-- Puts an element in front of the list that was read after it. -/
def Outcome.prepend {ι α : Type} (a : α) : Outcome ι (List α) → Outcome ι (List α)
  | .ok as c => .ok (a :: as) c
  | .error f c => .error f c

end Formulary.Parsing
