/-
# Reading tokens moves on

Whatever is read into tokens, the cursor only passes characters.  So the character in front of the
place that was come to is the last one passed.
-/
import Formulary.Proofs.Parsing.Characters
import Formulary.Proofs.Parsing.Onward
import Formulary.Token.Reading

namespace Formulary.Token

open Text Word Parsing

/-! ## Single tokens -/

lemma movesOnward_exactly (s : List Char) : MovesOnward (exactly s) := movesOnward_literal _ s

lemma movesOnward_readKeyword : MovesOnward readKeyword :=
  movesOnward_get fun _ => movesOnward_bind (movesOnward_matching _) fun word => by
    split
    · exact movesOnward_pure _
    · exact movesOnward_pure _
    · exact movesOnward_throw _

lemma movesOnward_readNumber : MovesOnward readNumber :=
  movesOnward_get fun c => by
    split
    · exact movesOnward_failHere _
    · refine movesOnward_bind (movesOnward_matching _) fun cs => movesOnward_get fun c => ?_
      split
      · exact movesOnward_failHere _
      · exact movesOnward_pure _

lemma movesOnward_readTextChar : MovesOnward readTextChar :=
  movesOnward_choice (forall_mem_pair
    (movesOnward_bind (movesOnward_exactly _) fun _ =>
      movesOnward_bind movesOnward_next fun _ => movesOnward_pure _)
    (movesOnward_map (movesOnward_satisfying _ _) _))

lemma movesOnward_readText : MovesOnward readText :=
  movesOnward_bind (movesOnward_delimited (movesOnward_exactly _) (movesOnward_exactly _)
    (movesOnward_many movesOnward_readTextChar)) fun _ => movesOnward_pure _

lemma movesOnward_readRawName : MovesOnward readRawName :=
  movesOnward_bind (movesOnward_matching _) fun _ => movesOnward_bind (movesOnward_takeUntil _)
    fun _ => movesOnward_bind (movesOnward_exactly _) fun _ => movesOnward_pure _

lemma movesOnward_readReference : MovesOnward readReference :=
  movesOnward_get fun c => by
    split
    · split
      · exact movesOnward_bind (movesOnward_takeItems _) fun _ => movesOnward_pure _
      · exact movesOnward_failHere _
    · split
      · exact movesOnward_throw _
      · exact movesOnward_pure _

/-! ## Groups, blocks and rows -/

section Contents

variable {contents : Option Nat → Parser Char (List (Located Token))}
  (h : ∀ k, MovesOnward (contents k))

include h

lemma movesOnward_readGroup : MovesOnward (readGroup contents) :=
  movesOnward_bind movesOnward_peek fun opening => by
    dsimp only
    split
    · exact Cursor.Onward.refl
    · exact movesOnward_bind (movesOnward_delimited (movesOnward_exactly _)
        (movesOnward_exactly _) (h none)) fun _ => movesOnward_pure _

lemma movesOnward_readToken : MovesOnward (readToken contents) := by
  refine movesOnward_get fun c => movesOnward_bind (movesOnward_choice ?_) fun _ =>
    movesOnward_get fun _ => movesOnward_pure _
  have hmatching {f : List Char → Parser Char Token} (q : Pattern Char)
      (hf : ∀ cs, MovesOnward (f cs)) : MovesOnward (matching q >>= f) :=
    movesOnward_bind (movesOnward_matching q) hf
  simp only [List.forall_mem_cons, List.not_mem_nil, false_implies, implies_true, and_true]
  exact ⟨movesOnward_readKeyword,
    movesOnward_bind (movesOnward_exactly _) fun _ => movesOnward_pure _,
    movesOnward_readNumber, movesOnward_readText, movesOnward_readRawName,
    hmatching _ fun _ => movesOnward_pure _, hmatching _ fun _ => movesOnward_pure _,
    movesOnward_readGroup h, hmatching _ fun _ => movesOnward_pure _⟩

lemma movesOnward_readBlock (enclosing : Nat) : MovesOnward (readBlock contents enclosing) :=
  movesOnward_get fun _ => movesOnward_bind (movesOnward_optional (movesOnward_matching _))
    fun _ => movesOnward_bind (movesOnward_exactly _) fun _ =>
      movesOnward_bind movesOnward_readReference fun reference => by
        split
        · exact movesOnward_failHere _
        · exact movesOnward_bind (h _) fun _ => movesOnward_get fun _ => movesOnward_pure _

lemma movesOnward_readStep (E : Option Nat) : MovesOnward (readStep contents E) :=
  movesOnward_get fun c => by
    split
    · exact movesOnward_pure _
    · refine movesOnward_bind (movesOnward_optional (movesOnward_readToken h)) ?_
      rintro (_ | token)
      · exact movesOnward_pure _
      · dsimp only
        split
        · refine movesOnward_bind (movesOnward_optional (movesOnward_readBlock h _)) ?_
          rintro (_ | block) <;> exact movesOnward_pure _
        · exact movesOnward_pure _

end Contents

lemma movesOnward_readTokens (E : Option Nat) : MovesOnward (readTokens E) :=
  movesOnward_fix (fun _ h k => movesOnward_map (movesOnward_collect (movesOnward_readStep h k)) _) E

/-! ## The character in front -/

variable {c c' : Cursor Char} {p : Position} {cs ds : List Char}

/-- Where a cursor has moved on, the character passed last is in front of it. -/
lemma previous_of_onward (hst : Stands c p (cs ++ ds)) (hst' : Stands c' (p.after cs) ds)
    (h : c.Onward c') :
    c'.previous.map Located.value = lastOf (c.previous.map Located.value) cs := by
  obtain ⟨passed, hpassed⟩ := h
  have hrest := hpassed.rest_eq
  rw [hst.rest_eq, hst'.rest_eq, locate_append] at hrest
  have hlast : cs.getLast? = passed.getLast?.map Located.value := by
    rw [← List.append_cancel_right hrest, ← List.getLast?_map, locate_values]
  rw [hpassed.previous_eq, lastOf_eq, hlast]
  cases passed.getLast? <;> rfl

lemma previous_of_fork_eq {d : Cursor Char} (h : c.fork = d.fork) : c.previous = d.previous :=
  show c.fork.previous = d.fork.previous by rw [h]

end Formulary.Token
