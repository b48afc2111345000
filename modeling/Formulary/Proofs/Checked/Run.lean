/-
# Checked runs

A program does not have its cursors as rows of items that are still to come.  It has the position
of a byte in a text, or an index into a row of tokens, and the operations on these are not defined
everywhere: a text cannot be cut inside a character, and there is no token behind the last one.
A checked run does what a program does with such places, and where an operation is not defined it
stops with a fault.  A failure is no fault: it is what a run gives.

The combinators are those of parsers, with each step that looks at the place checked.
-/
import Mathlib.Tactic.Common
import Formulary.Parsing.Combinators

namespace Formulary.Checked

open Text Parsing

/-- Why a checked run stops. -/
inductive Fault where
  /-- No failures at all were to be summed up. -/
  | noAlternatives
  /-- A text was to be cut inside a character or behind its end. -/
  | cut
  /-- A number was to be taken away from a smaller one. -/
  | difference
  /-- There is no item with an index. -/
  | index
  /-- Not all items of a range exist. -/
  | range
  /-- There is no node under a key. -/
  | key
  /-- A node is below itself. -/
  | endless
deriving DecidableEq, Repr

/-- A run from places of type `κ`: it stops with a fault, or it gives a value or a failure and the
place where it ends. -/
def Run (κ α : Type) : Type := κ → Except Fault (EStateM.Result Failure κ α)

/-- What takes the place of a cursor in a checked run. -/
class Place (ι : outParam Type) (κ : Type) where
  /-- The next item, if there is one. -/
  next? : κ → Except Fault (Option (Located ι))
  /-- The place behind the next item, with nothing recorded. -/
  step : κ → Located ι → κ
  /-- How far the place is from the beginning of the row. -/
  offset : κ → Nat
  /-- The span of the next item, or an empty one. -/
  span : κ → Except Fault Span
  /-- The position right after the item before the place. -/
  previousEnd : κ → Except Fault Position
  /-- What was recorded at the place. -/
  pending : κ → List Failure
  /-- The same place with other failures recorded. -/
  withPending : κ → List Failure → κ
  /-- The number of items to come. -/
  left : κ → Nat
  /-- A step leaves fewer items to come. -/
  left_step : ∀ {k : κ} {item : Located ι}, next? k = .ok (some item) → left (step k item) < left k

variable {ι κ α β γ δ : Type}

/-! ## Failures -/

/-- Sums up failures, of which there must be one. -/
def alternatives (fs : List Failure) : Except Fault Failure :=
  match Failure.ofAlternatives fs with
  | .ok f => .ok f
  | .error _ => .error .noAlternatives

/-- The failures that start furthest into the text, summed up. -/
def richest (fs : List Failure) : Except Fault (Option Failure) :=
  match (fs.map Failure.startByte).max? with
  | none => .ok none
  | some furthest => some <$> alternatives (fs.filter (·.startByte == furthest)).eraseDups

/-! ## Steps -/

namespace Run

/-- Gives a value. -/
def pure (a : α) : Run κ α := fun k => .ok (.ok a k)

/-- Goes on with the value that is given. -/
def bind (m : Run κ α) (f : α → Run κ β) : Run κ β := fun k =>
  match m k with
  | .error fault => .error fault
  | .ok (.error f k') => .ok (.error f k')
  | .ok (.ok a k') => f a k'

end Run

instance : Monad (Run κ) where
  pure := Run.pure
  bind := Run.bind

lemma run_bind_of_ok {m : Run κ α} {f : α → Run κ β} {k k' : κ} {a : α}
    (h : m k = .ok (.ok a k')) : (m >>= f) k = f a k' := by
  change Run.bind m f k = _
  rw [Run.bind, h]

lemma run_bind_of_error {m : Run κ α} {f : α → Run κ β} {k k' : κ} {e : Failure}
    (h : m k = .ok (.error e k')) : (m >>= f) k = .ok (.error e k') := by
  change Run.bind m f k = _
  rw [Run.bind, h]

lemma run_bind_pure (m : Run κ α) : m >>= pure = m := by
  funext k
  change Run.bind m Run.pure k = m k
  unfold Run.bind Run.pure
  cases m k with
  | error fault => rfl
  | ok r => cases r <;> rfl

/-- Gives what is seen at the place. -/
def look (f : κ → Except Fault α) : Run κ α := fun k =>
  match f k with
  | .error fault => .error fault
  | .ok a => .ok (.ok a k)

/-- Fails. -/
def fail (f : Failure) : Run κ α := fun k => .ok (.error f k)

/-- Gives the value of a computation, or its failure. -/
def settle (x : Except Fault (Except Failure α)) : Run κ α := fun k =>
  match x with
  | .error fault => .error fault
  | .ok (.error f) => .ok (.error f k)
  | .ok (.ok a) => .ok (.ok a k)

section Places

variable [Place ι κ]

/-- The span of the next item. -/
def span : Run κ Span := look Place.span

/-- The position in front of the next item. -/
def position : Run κ Position := look fun k => Span.start <$> Place.span k

/-- The position right after the item before the place. -/
def previousEnd : Run κ Position := look Place.previousEnd

/-- The span from the beginning of `s` up to the item before the place. -/
def spanFrom (s : Span) : Run κ Span := look fun k => (⟨s.start, ·⟩) <$> Place.previousEnd k

/-- Whether no item is left. -/
def atEnd (k : κ) : Except Fault Bool := Option.isNone <$> Place.next? k

/-- Notes a failure. -/
def record (k : κ) (f : Failure) : κ := Place.withPending k (Place.pending k ++ [f])

/-- The place with nothing recorded. -/
def fork (k : κ) : κ := Place.withPending k []

/-- Goes on from a fork. -/
def adopt (k fork : κ) : κ :=
  if Place.offset fork = Place.offset k then
    Place.withPending fork (Place.pending k ++ Place.pending fork)
  else fork

/-- Fails for a stated reason at the next item. -/
def failHere (text : String) : Run κ α := do
  fail (Failure.because (← span) text)

/-- Passes the next item. -/
def next : Run κ (Located ι) := fun k =>
  match Place.next? k with
  | .error fault => .error fault
  | .ok none => (do fail (Failure.endOfInput (← span))) k
  | .ok (some item) => .ok (.ok item (Place.step k item))

/-- The next item, without passing it. -/
def peek : Run κ (Located ι) := do
  match ← look Place.next? with
  | none => fail (Failure.endOfInput (← span))
  | some item => return item

variable [Item ι]

/-- The next item as it is named in messages. -/
def describeNext (k : κ) : Except Fault String := do
  match ← Place.next? k with
  | none => return "end of input"
  | some item => return Item.describe item.value

/-- What is said of a next item that nothing accepts. -/
def unexpected (k : κ) : Except Fault String := do
  return s!"unexpected {← describeNext k}"

/-- Fails because the next item is not what was expected. -/
def expected (what : String) : Run κ α := do
  let found ← look describeNext
  failHere s!"expected {what}, found {found}"

/-- The failure to report here. -/
def blame (k : κ) : Except Fault Failure := do
  let fallback ← unexpected k
  match ← richest (Place.pending k) with
  | some f => return f
  | none => return Failure.because (← Place.span k) fallback

/-- Passes a single item that satisfies a condition. -/
def satisfying (what : String) (holds : ι → Bool) : Run κ (Located ι) := do
  match ← look Place.next? with
  | some item => if holds item.value then next else expected what
  | none => expected what

/-! ## Combinators -/

/-- Tries a run on a fork. -/
def optional (m : Run κ α) : Run κ (Option α) := fun k =>
  match m (fork k) with
  | .error fault => .error fault
  | .ok (.ok a k') => .ok (.ok (some a) (adopt k k'))
  | .ok (.error f _) => .ok (if f.fatal then .error f k else .ok none (record k f))

/-- Takes the first of the runs that succeeds. -/
def choice : List (Run κ α) → Run κ α
  | [] => do fail (← look blame)
  | m :: ms => do
    match ← optional m with
    | some a => return a
    | none => choice ms

/-- Runs `m` unless `forbidden` would succeed at the same place. -/
def notAhead (forbidden : Run κ β) (m : Run κ α) : Run κ α := fun k =>
  match forbidden (fork k) with
  | .error fault => .error fault
  | .ok (.ok _ _) => (do failHere (← look unexpected)) k
  | .ok (.error f _) => if f.fatal then .ok (.error f k) else m k

/-- Runs `inner` between `opening` and `closing`. -/
def delimited (opening : Run κ β) (closing : Run κ γ) (inner : Run κ α) : Run κ α := do
  let _ ← opening
  let a ← inner
  let _ ← closing
  return a

/-- Puts an element in front of the list that is given. -/
def prepend (a : α) :
    Except Fault (EStateM.Result Failure κ (List α)) →
      Except Fault (EStateM.Result Failure κ (List α))
  | .error fault => .error fault
  | .ok (.error f k) => .ok (.error f k)
  | .ok (.ok as k) => .ok (.ok (a :: as) k)

/-- Runs `m` as many times as possible, as long as fewer items are left each time. -/
def many (m : Run κ α) : Run κ (List α) := fun k =>
  match m (fork k) with
  | .error fault => .error fault
  | .ok (.ok a k') =>
    if Place.left (adopt k k') < Place.left k then prepend a (many m (adopt k k'))
    else .ok (.ok [] k)
  | .ok (.error f _) => .ok (if f.fatal then .error f k else .ok [] (record k f))
termination_by k => Place.left k

/-- Repeats a step, as long as it says to go on and fewer items are left each time. -/
def collect (step : Run κ (Option (α × Bool))) : Run κ (List α) := fun k =>
  match step k with
  | .error fault => .error fault
  | .ok (.ok none k') => .ok (.ok [] k')
  | .ok (.ok (some (a, goOn)) k') =>
    if goOn ∧ Place.left k' < Place.left k then prepend a (collect step k')
    else .ok (.ok [a] k')
  | .ok (.error f k') => .ok (.error f k')
termination_by k => Place.left k
decreasing_by exact (‹_ ∧ _› : _ ∧ _).2

/-- Elements with a separator between them; one more separator may follow the last. -/
def separated (element : Run κ (Option α)) (separator : Run κ β) : Run κ (List α) :=
  collect do
    match ← element with
    | none => return none
    | some a => return some (a, (← optional separator).isSome)

/-- Passes items up to where `stop` matches. -/
def takeUntil (stop : Run κ β) : Run κ (List (Located ι)) := fun k =>
  match stop (fork k) with
  | .error fault => .error fault
  | .ok (.ok _ _) => .ok (.ok [] k)
  | .ok (.error f _) =>
    if f.fatal then .ok (.error f k)
    else
      match _here : Place.next? k with
      | .error fault => .error fault
      | .ok none => (do fail (Failure.endOfInput (← span)).toFatal) k
      | .ok (some item) => prepend item (takeUntil stop (Place.step k item))
termination_by k => Place.left k
decreasing_by exact Place.left_step _here

/-! ## Rows and recursion -/

/-- What a run over a whole row gives. -/
def whole (first : κ) (m : Run κ α) : Except Fault (Except Failure α) :=
  match m first with
  | .error fault => .error fault
  | .ok (.error f _) => .ok (.error f)
  | .ok (.ok a k) => do
    if ← atEnd k then return .ok a else return .error (← blame k)

/-- Runs over a whole row inside of another one. -/
def within {κ' : Type} (first : κ) (m : Run κ α) : Run κ' α := settle (whole first m)

/-- Rules in terms of themselves, which apply again only where the size is smaller. -/
def fix (size : κ → Nat) (rules : (δ → Run κ α) → δ → Run κ α) (x : δ) : Run κ α := fun k =>
  rules
    (fun y k' => if size k' < size k then fix size rules y k'
      else (do failHere (← look unexpected)) k')
    x k
termination_by k => size k

end Places

end Formulary.Checked
