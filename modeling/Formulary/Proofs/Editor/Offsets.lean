/-
# Offsets of problems

A text is checked after its line breaks have been unified, and the offsets that are reported count
the bytes of the unified text.  In the text that was handed over, the place lies further back by one
byte for every pair of a carriage return and a line feed in front of it.  So an offset is right as
long as there is no such pair in front of it, and otherwise another place stands there, or none.
-/
import Mathlib.Data.List.Infix
import Formulary.Editor
import Formulary.Proofs.Grammar.Blame
import Formulary.Proofs.Text.LineBreaks

namespace Formulary.Editor

open Text Parsing

variable {text front back : List Char} {x : Position}

/-- The offset is right for the place `x` of the unified text: a character of the text ends there,
and what is in front of it unifies to what is in front of `x`. -/
def PointsAt (text : List Char) (offset : Nat) (x : Position) : Prop :=
  ∃ front back rest, text = front ++ back ∧ byteLength front = offset ∧
    unifyLineBreaks text = unifyLineBreaks front ++ rest ∧
    x = Position.after {} (unifyLineBreaks front)

/-- Where the place `x` of the unified text comes from, and what was reported for it. -/
structure Reported (text : List Char) (offset : Nat) (x : Position) (front back : List Char) :
    Prop where
  /-- The text in front of the place, and behind it. -/
  text_eq : text = front ++ back
  /-- Both are unified on their own. -/
  unified_eq : unifyLineBreaks text = unifyLineBreaks front ++ unifyLineBreaks back
  /-- This is the place. -/
  place_eq : x = Position.after {} (unifyLineBreaks front)
  /-- The offset is too small by the number of pairs in front of the place. -/
  byte_eq : byteLength front = offset + pairCount front
  /-- It is right only if there are none. -/
  points_iff : PointsAt text offset x ↔ pairCount front = 0

/-- Every place of the unified text comes from a place of the text. -/
lemma exists_reported (h : Place (unifyLineBreaks text) x) :
    ∃ front back, Reported text x.byte x front back := by
  obtain ⟨v, ⟨w, hvw⟩, rfl⟩ := h
  obtain ⟨front, back, hsplits⟩ := exists_splitsAt hvw.symm
  obtain rfl := hsplits.front_eq
  have hbyte : byteLength front = (Position.after {} (unifyLineBreaks front)).byte + pairCount front := by
    rw [byteLength_unifyLineBreaks, Position.after_byte, Nat.zero_add]
  have hunified : unifyLineBreaks text = unifyLineBreaks front ++ unifyLineBreaks back := by
    rw [← hvw, hsplits.back_eq]
  refine ⟨front, back, hsplits.text_eq, hunified, rfl, hbyte, ?_, ?_⟩
  · rintro ⟨f, b, rest, htext, hf, hrest, hplace⟩
    have hfront : unifyLineBreaks front = unifyLineBreaks f :=
      eq_of_byte_eq ⟨_, hvw⟩ ⟨rest, hrest.symm⟩ (congrArg Position.byte hplace)
    obtain rfl := hsplits.unique f ⟨b, htext.symm⟩ hfront.symm
    omega
  · intro hpairs
    exact ⟨front, back, _, hsplits.text_eq, by rw [hbyte, hpairs, Nat.add_zero], hunified, rfl⟩

/-- What is reported of a text are the bytes of the failure in the unified text.  Either end of it
comes from one place of the text, which lies further back by the number of pairs in front of it;
the offset that is reported is that of the place exactly if there are none. -/
theorem check_offsets {problem : Problem} (h : check text = some problem) :
    ∃ f, DefinitionSet.ofText (unifyLineBreaks text) = .error f ∧
      problem = ⟨f.message, f.span.start.byte, f.span.stop.byte⟩ ∧
      (∃ front back, Reported text problem.start f.span.start front back) ∧
      ∃ front back, Reported text problem.stop f.span.stop front back := by
  unfold check at h
  cases hread : DefinitionSet.ofText (unifyLineBreaks text) with
  | ok program =>
    rw [hread] at h
    cases h
  | error f =>
    rw [hread] at h
    cases h
    have hpart := (DefinitionSet.points_of_ofText hread).span_partOf
    exact ⟨f, rfl, rfl, exists_reported hpart.start, exists_reported hpart.stop⟩

/-- A pair in front of a letter of two bytes, and an operator behind it. -/
lemma exists_problem : ∃ problem, check "\r\né$".toList = some problem ∧ problem.start = 3 ∧
    problem.stop = 4 := by
  have hproblem : (check "\r\né$".toList).map (fun problem => (problem.start, problem.stop)) =
      some (3, 4) := by decide +kernel
  obtain ⟨problem, hcheck, hbytes⟩ := Option.map_eq_some_iff.mp hproblem
  rw [Prod.mk.injEq] at hbytes
  exact ⟨problem, hcheck, hbytes⟩

/-- The operator begins one byte further back than is reported. -/
theorem check_offsets_of_pair : ∃ problem f front back, check "\r\né$".toList = some problem ∧
    DefinitionSet.ofText (unifyLineBreaks "\r\né$".toList) = .error f ∧ problem.start = 3 ∧
    Reported "\r\né$".toList problem.start f.span.start front back ∧
    byteLength front = problem.start + pairCount front := by
  obtain ⟨problem, hcheck, hstart, -⟩ := exists_problem
  obtain ⟨f, hf, -, ⟨front, back, hreported⟩, -⟩ := check_offsets hcheck
  exact ⟨problem, f, front, back, hcheck, hf, hstart, hreported, hreported.byte_eq⟩

/-- The offsets that are reported need not be those of the text: this one lies within a letter. -/
theorem not_check_points_at : ¬∀ text problem f, check text = some problem →
    DefinitionSet.ofText (unifyLineBreaks text) = .error f →
    PointsAt text problem.start f.span.start ∧ PointsAt text problem.stop f.span.stop := by
  intro hall
  obtain ⟨problem, hcheck, hstart, -⟩ := exists_problem
  obtain ⟨f, hf⟩ : ∃ f, DefinitionSet.ofText (unifyLineBreaks "\r\né$".toList) = .error f := by
    unfold check at hcheck
    split at hcheck
    · cases hcheck
    · exact ⟨_, ‹_›⟩
  obtain ⟨⟨front, back, -, htext, hbyte, -⟩, -⟩ := hall _ problem f hcheck hf
  -- no front part of the text has three bytes
  have hnone : ∀ front ∈ "\r\né$".toList.inits, byteLength front ≠ 3 := by decide
  exact hnone front ((List.mem_inits _ _).mpr ⟨back, htext.symm⟩) (hbyte.trans hstart)

end Formulary.Editor
