/-
# Parser combinators

The combinators are written once for every kind of item, so the same ones read characters into
tokens and tokens into trees.

The combinators that backtrack (`optional`, `choice`, `many`) record the failures they recover
from on the cursor, and these surface only when nothing matches.  A fatal failure is passed on
at once.

Repetition ends by the number of items left: it goes on only while that number falls.  In the
same way `fix` ties a recursive rule over a measure of the cursor, and the rule is applied
again only where the measure is smaller than where it was applied before.
-/
import Formulary.Parsing.Cursor
import Formulary.Parsing.Pattern

namespace Formulary.Parsing

open Text

variable {ι α β γ κ : Type}

/-! ## Single items -/

/-- Passes the next item. -/
def next [Item ι] : Parser ι (Located ι) := fun c =>
  match c.rest with
  | [] => .error (Failure.endOfInput c.span) c
  | item :: rest => .ok item (c.pass item rest)

/-- The next item, without passing it. -/
def peek : Parser ι (Located ι) := fun c =>
  match c.rest with
  | [] => .error (Failure.endOfInput c.span) c
  | item :: _ => .ok item c

/-- Fails for a stated reason at the next item. -/
def failHere (text : String) : Parser ι α := fun c =>
  .error (Failure.because c.span text) c

/-- Fails because the next item is not what was expected. -/
def expected [Item ι] (what : String) : Parser ι α := fun c =>
  .error (Failure.because c.span s!"expected {what}, found {c.describeNext}") c

/-- Passes a single item that satisfies a condition. -/
def satisfying [Item ι] (what : String) (holds : ι → Bool) : Parser ι (Located ι) := fun c =>
  match c.rest with
  | item :: rest =>
    if holds item.value then .ok item (c.pass item rest) else expected what c
  | [] => expected what c

/-- Passes the next `n` items. -/
def takeItems [Item ι] : Nat → Parser ι (List ι)
  | 0 => pure []
  | n + 1 => do
    let item ← next
    let items ← takeItems n
    return item.value :: items

/-- Passes items until their widths sum up to at least `n`. -/
def takeWidth [Item ι] (n : Nat) : Parser ι (List ι) := fun c =>
  go n c.rest c
where
  /-- Passes the items `rest` to come until their widths sum up to at least `n`. -/
  go (n : Nat) : List (Located ι) → Parser ι (List ι)
    | [], c => if n = 0 then .ok [] c else .error (Failure.endOfInput c.span) c
    | item :: rest, c =>
      if n = 0 then .ok [] c
      else Outcome.prepend item.value (go (n - Item.width item.value) rest (c.pass item rest))

/-! ## Stretches of items -/

/-- Passes exactly the items `wanted`, which messages show as `shown`.  The item that differs
is passed as well. -/
def literal [Item ι] [BEq ι] (shown : String) (wanted : List ι) : Parser ι (List ι) := fun c =>
  go (Failure.because c.span s!"expected `{shown}`") wanted c
where
  /-- Passes the items `wanted`, or fails with `failure`. -/
  go (failure : Failure) : List ι → Parser ι (List ι)
    | [], c => .ok wanted c
    | w :: ws, c =>
      match c.rest with
      | [] => .error failure c
      | item :: rest =>
        if item.value == w then go failure ws (c.pass item rest)
        else .error failure (c.pass item rest)

/-- The items in front of the cursor that a pattern takes, none of them passed. -/
def Pattern.match? (p : Pattern ι) (c : Cursor ι) : Option (List ι) :=
  (p.length? c.upcoming).map c.upcoming.take

/-- Passes what a pattern takes, which must not be nothing. -/
def matching [Item ι] (p : Pattern ι) : Parser ι (List ι) := fun c =>
  match p.length? c.upcoming with
  | some (n + 1) => takeItems (n + 1) c
  | _ => expected s!"/{p.source}/" c

/-! ## Choice -/

/-- Tries a parser on a fork.  If it fails recoverably, its failure is recorded and nothing is
passed. -/
def optional (p : Parser ι α) : Parser ι (Option α) := fun c =>
  match p c.fork with
  | .ok a c' => .ok (some a) (c.adopt c')
  | .error f _ => if f.fatal then .error f c else .ok none (c.record f)

/-- Takes the first of the parsers that succeeds. -/
def choice [Item ι] : List (Parser ι α) → Parser ι α
  | [] => fun c => .error (c.blame c.unexpected) c
  | p :: ps => do
    match ← optional p with
    | some a => return a
    | none => choice ps

/-- Runs `p` unless `forbidden` would succeed at the same place. -/
def notAhead [Item ι] (forbidden : Parser ι β) (p : Parser ι α) : Parser ι α := fun c =>
  match forbidden c.fork with
  | .ok _ _ => failHere c.unexpected c
  | .error f _ => if f.fatal then .error f c else p c

/-! ## Sequences -/

/-- Runs the parsers one after the other.  What was passed before a failure stays passed. -/
def sequence : List (Parser ι α) → Parser ι (List α)
  | [] => return []
  | p :: ps => do
    let a ← p
    let as ← sequence ps
    return a :: as

/-- Runs `inner` between `opening` and `closing`. -/
def delimited (opening : Parser ι β) (closing : Parser ι γ) (inner : Parser ι α) :
    Parser ι α := do
  let _ ← opening
  let a ← inner
  let _ ← closing
  return a

/-- Matches a parser as many times as possible; it fails only if the parser fails fatally.  A
match that passes nothing ends the repetition and does not count. -/
def many (p : Parser ι α) : Parser ι (List α) := fun c =>
  match p c.fork with
  | .ok a c' =>
    if c'.rest.length < c.rest.length then Outcome.prepend a (many p (c.adopt c')) else .ok [] c
  | .error f _ => if f.fatal then .error f c else .ok [] (c.record f)
termination_by c => c.rest.length
decreasing_by simpa

/-- Repeats a step, which gives an element and whether to go on, or nothing if there is no
further element.  A step that passes nothing is the last. -/
def collect (step : Parser ι (Option (α × Bool))) : Parser ι (List α) := fun c =>
  match step c with
  | .ok none c' => .ok [] c'
  | .ok (some (a, goOn)) c' =>
    if goOn ∧ c'.rest.length < c.rest.length then Outcome.prepend a (collect step c')
    else .ok [a] c'
  | .error f c' => .error f c'
termination_by c => c.rest.length
decreasing_by exact (‹_ ∧ _› : _ ∧ _).2

/-- Elements with a separator between them; one more separator may follow the last.  `element`
gives nothing if there is no further element. -/
def separated (element : Parser ι (Option α)) (separator : Parser ι β) : Parser ι (List α) :=
  collect do
    match ← element with
    | none => return none
    | some a => return some (a, (← optional separator).isSome)

/-- Passes items one by one up to where `stop` matches.  Running out of items is fatal. -/
def takeUntil [Item ι] (stop : Parser ι β) : Parser ι (List (Located ι)) := fun c =>
  match stop c.fork with
  | .ok _ _ => .ok [] c
  | .error f _ =>
    if f.fatal then .error f c
    else
      match _here : c.rest with
      | [] => .error (Failure.endOfInput c.span).toFatal c
      | item :: rest => Outcome.prepend item (takeUntil stop (c.pass item rest))
termination_by c => c.rest.length
decreasing_by simp [Cursor.pass, _here]

/-! ## Groups and recursion -/

/-- Runs a parser on the contents of a group, which must be passed entirely.  The cursor of the
enclosing row stays where it is. -/
def within [Item ι] (inner : Cursor ι) (p : Parser ι α) : Parser ι α := fun c =>
  match p inner with
  | .ok a c' => if c'.atEnd then .ok a c else .error (c'.blame c'.unexpected) c
  | .error f _ => .error f c

/-- A family of rules given in terms of itself.  The rules may be applied again only where the
measure of the cursor has become smaller; elsewhere they accept nothing. -/
def fix [Item ι] (size : Cursor ι → Nat) (rules : (κ → Parser ι α) → κ → Parser ι α) (k : κ) :
    Parser ι α := fun c =>
  rules
    (fun k' c' => if size c' < size c then fix size rules k' c' else failHere c'.unexpected c')
    k c
termination_by c => size c

end Formulary.Parsing
