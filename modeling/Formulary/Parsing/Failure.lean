/-
# Failures of a parser

A failure says where a parser could not go on, and why.  When several branches of a choice fail
at one place their failures are kept side by side, so a failure is a tree; its message lists the
distinct messages of the branches.  A fatal failure ends the whole run: nothing backtracks over
it.

Two requests are mistakes of whoever makes them and not of a text or of an edit: to sum up no
failures at all, and to read a node under a key that no live node has.  They are kept apart from
every other error.
-/
import Formulary.Text.Position

namespace Formulary

/-- A request that should not have been made. -/
inductive Defect where
  /-- A summary of no failures was asked for. -/
  | noAlternatives
  /-- A node was read under a key that no live node has. -/
  | invalidKey
deriving DecidableEq, Repr

/-- What is reported. -/
def Defect.message : Defect → String
  | .noAlternatives => "no alternatives provided"
  | .invalidKey => "invalid SlotMap key used"

end Formulary

namespace Formulary.Parsing

open Text

/-- Why a parser failed; `φ` stands for the failures of the branches of a choice. -/
inductive Cause (φ : Type) where
  /-- For the stated reason. -/
  | message (text : String)
  /-- The input ended. -/
  | endOfInput
  /-- Every branch of a choice failed. -/
  | alternatives (branches : List φ)
  /-- An infix operator lacks an operand. -/
  | lonelyOperator (operator : String)
  /-- A chain of operands and operators was folded to this number of items other than one
  operand. -/
  | incompleteReduction (remaining : Nat)
deriving Repr

/-- Where and why a parser failed. -/
structure Failure where
  /-- The place of the failure. -/
  span : Span
  /-- Its cause. -/
  cause : Cause Failure
  /-- Whether the failure must not be backtracked over. -/
  fatal : Bool
deriving Repr

namespace Failure

/-! ## Making failures -/

/-- A failure for a stated reason that may be backtracked over. -/
def because (span : Span) (text : String) : Failure := ⟨span, .message text, false⟩

/-- The input ended where more was needed. -/
def endOfInput (span : Span) : Failure := ⟨span, .endOfInput, false⟩

/-- The same failure, now fatal. -/
def toFatal (f : Failure) : Failure := { f with fatal := true }

/-- Sums up the failures of one place.  A single one stands for itself; several are placed at
the first of them, and are fatal together as soon as one is. -/
def summary (first : Failure) : List Failure → Failure
  | [] => first
  | rest => ⟨first.span, .alternatives (first :: rest), (first :: rest).any fatal⟩

/-- Sums up a list of failures, which must not be empty. -/
def ofAlternatives : List Failure → Except Defect Failure
  | [] => .error .noAlternatives
  | first :: rest => .ok (first.summary rest)

/-! ## Messages -/

mutual

/-- What is reported to a reader: the distinct messages of alternatives are listed in the order
in which they first occur. -/
def message : Failure → String
  | ⟨_, cause, _⟩ => causeMessage cause

/-- The message of a cause. -/
def causeMessage : Cause Failure → String
  | .message text => text
  | .endOfInput => "unexpected end of input"
  | .alternatives branches => " or ".intercalate (messages branches).eraseDups
  | .lonelyOperator operator =>
    s!"internal error: the operator `{operator}` is missing an operand"
  | .incompleteReduction remaining =>
    s!"internal error: {remaining} nodes remained after operator precedence reduction"

/-- The messages of a list of failures, one each. -/
def messages : List Failure → List String
  | [] => []
  | f :: fs => f.message :: messages fs

end

/-! ## Equality -/

mutual

/-- Whether two failures are the same in every part. -/
def same : Failure → Failure → Bool
  | ⟨s, c, f⟩, ⟨s', c', f'⟩ => s == s' && sameCause c c' && f == f'

/-- Whether two causes are the same in every part. -/
def sameCause : Cause Failure → Cause Failure → Bool
  | .message t, .message t' => t == t'
  | .endOfInput, .endOfInput => true
  | .alternatives fs, .alternatives fs' => sameBranches fs fs'
  | .lonelyOperator o, .lonelyOperator o' => o == o'
  | .incompleteReduction n, .incompleteReduction n' => n == n'
  | _, _ => false

/-- Whether two lists of failures are the same, one by one. -/
def sameBranches : List Failure → List Failure → Bool
  | [], [] => true
  | f :: fs, g :: gs => same f g && sameBranches fs gs
  | _, _ => false

end

mutual

theorem same_refl : ∀ f : Failure, same f f = true
  | ⟨_, c, _⟩ => by simp [same, sameCause_refl c]

theorem sameCause_refl : ∀ c : Cause Failure, sameCause c c = true
  | .message _ | .endOfInput | .lonelyOperator _ | .incompleteReduction _ => by simp [sameCause]
  | .alternatives fs => by simp [sameCause, sameBranches_refl fs]

theorem sameBranches_refl : ∀ fs : List Failure, sameBranches fs fs = true
  | [] => rfl
  | f :: fs => by simp [sameBranches, same_refl f, sameBranches_refl fs]

end

mutual

theorem eq_of_same : ∀ {f g : Failure}, same f g = true → f = g
  | ⟨_, c, _⟩, ⟨_, d, _⟩, h => by
    simp only [same, Bool.and_eq_true, beq_iff_eq] at h
    obtain ⟨⟨rfl, hc⟩, rfl⟩ := h
    rw [eq_of_sameCause hc]

theorem eq_of_sameCause : ∀ {c d : Cause Failure}, sameCause c d = true → c = d
  | .message _, d, h | .endOfInput, d, h | .lonelyOperator _, d, h
  | .incompleteReduction _, d, h => by cases d <;> simp_all [sameCause]
  | .alternatives fs, .alternatives gs, h => by
    simp only [sameCause] at h
    rw [eq_of_sameBranches h]

theorem eq_of_sameBranches : ∀ {fs gs : List Failure}, sameBranches fs gs = true → fs = gs
  | [], [], _ => rfl
  | f :: fs, g :: gs, h => by
    simp only [sameBranches, Bool.and_eq_true] at h
    rw [eq_of_same h.1, eq_of_sameBranches h.2]

end

theorem same_iff {f g : Failure} : same f g = true ↔ f = g :=
  ⟨eq_of_same, fun h => h ▸ same_refl f⟩

instance : DecidableEq Failure := fun _ _ => decidable_of_iff _ same_iff

/-! ## The furthest failures -/

/-- The byte at which a failure starts. -/
def startByte (f : Failure) : Nat := f.span.start.byte

/-- The distinct failures among `fs` that start furthest into the text, in their order, summed
up; there is none if `fs` is empty. -/
def furthest? (fs : List Failure) : Option Failure :=
  let limit := fs.foldl (fun n f => max n f.startByte) 0
  match (fs.filter fun f => f.startByte == limit).eraseDups with
  | [] => none
  | first :: rest => some (first.summary rest)

end Failure

end Formulary.Parsing
