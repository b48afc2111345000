/-
# Where failures point

Whatever a text cannot be read for, the failure points into the text, and so does every failure of
a branch in it.  What is said of a character or of a token is said of a part of the text, and at the
end of a row of the empty part there.  Failures are only summed up if they start at the same byte,
however far the branches that they come from have got.
-/
import Formulary.Proofs.Grammar.Failures
import Formulary.Proofs.Grammar.Nesting
import Formulary.Proofs.Token.Failures
import Formulary.Store.Text

namespace Formulary

open Text Parsing

variable {text : List Char}

/-- The span of a failure is a part of the text.  If every branch of a choice failed, then all their
failures point into the text as well, and start where the one of the choice does. -/
inductive Parsing.Failure.Points (text : List Char) : Failure → Prop
  | single {span : Span} {cause : Cause Failure} {fatal : Bool} (hspan : span.PartOf text)
    (hcause : ∀ fs, cause ≠ .alternatives fs) : Points text ⟨span, cause, fatal⟩
  | alternatives {span : Span} {fs : List Failure} {fatal : Bool} (hspan : span.PartOf text)
    (hall : ∀ f ∈ fs, Points text f) (hbyte : ∀ f ∈ fs, f.startByte = span.start.byte) :
    Points text ⟨span, .alternatives fs, fatal⟩

namespace Parsing.Failure.Points

lemma span_partOf {f : Failure} (h : f.Points text) : f.span.PartOf text := by
  cases h with
  | single hspan _ => exact hspan
  | alternatives hspan _ _ => exact hspan

lemma toFatal {f : Failure} (h : f.Points text) : f.toFatal.Points text := by
  cases h with
  | single hspan hcause => exact .single hspan hcause
  | alternatives hspan hall hbyte => exact .alternatives hspan hall hbyte

/-- Failures from one byte are summed up. -/
lemma summed {first : Failure} {rest : List Failure} (fatal : Bool)
    (hall : ∀ f ∈ first :: rest, f.Points text)
    (hbyte : ∀ f ∈ rest, f.startByte = first.startByte) :
    Failure.Points text ⟨first.span, .alternatives (first :: rest), fatal⟩ :=
  .alternatives (hall first List.mem_cons_self).span_partOf hall
    (List.forall_mem_cons.mpr ⟨rfl, hbyte⟩)

end Parsing.Failure.Points

/-! ## Characters -/

/-- The cursor stands in the text, with the rest of it to come. -/
def Standing (text : List Char) (c : Cursor Char) : Prop :=
  ∃ front rest, text = front ++ rest ∧ Stands c (Position.after {} front) rest

lemma standing_ofText (text : List Char) : Standing text (Cursor.ofText text) :=
  ⟨[], text, rfl, stands_ofText text⟩

lemma Standing.span_partOf {c : Cursor Char} (h : Standing text c) : c.span.PartOf text := by
  obtain ⟨front, rest, rfl, hst⟩ := h
  rw [Cursor.span, hst.rest_eq]
  cases rest with
  | nil => exact ⟨front, [], [], by simp, by rw [locate, hst.stop_eq, List.append_nil]; rfl⟩
  | cons d ds =>
    exact ⟨front, [d], ds, by simp, by rw [locate, Position.after_append]; rfl⟩

lemma Standing.pass {c : Cursor Char} {item : Located Char} {items : List (Located Char)}
    (h : Standing text c) (hrest : c.rest = item :: items) : Standing text (c.pass item items) := by
  obtain ⟨front, rest, rfl, hst⟩ := h
  rw [hst.rest_eq] at hrest
  cases rest with
  | nil => cases hrest
  | cons d ds =>
    cases hrest
    refine ⟨front ++ [d], ds, by simp, ?_⟩
    rw [Position.after_append]
    exact hst.pass _

lemma kept_standing : Failure.Kept (Standing text) Token.Says (Failure.Points text) where
  pass _ _ _ hc hrest := hc.pass hrest
  unexpected _ := .unexpected
  because _ _ hc _ := .single hc.span_partOf nofun
  endOfInput _ hc _ := .single hc.span_partOf nofun
  fatal _ h := h.toFatal
  alternatives fatal _ _ := .summed fatal

/-! ## Tokens -/

lemma Sound.span_partOf {c : Cursor Token} (h : Sound text c) : c.span.PartOf text := by
  rw [Cursor.span]
  cases hrest : c.rest with
  | nil => exact Span.partOf_of_place h.stop h.stop (Nat.le_refl _)
  | cons t rest => exact (h.pass hrest).2.2.partOf

lemma keptByRules_sound : Failure.KeptByRules (Sound text) (Failure.Points text) where
  pass _ _ _ hc hrest := (hc.pass hrest).1.sound
  unexpected _ := .unexpected
  because _ _ hc _ := .single hc.span_partOf nofun
  endOfInput _ hc _ := .single hc.span_partOf nofun
  fatal _ h := h.toFatal
  alternatives fatal _ _ := .summed fatal
  enter _ _ _ _ _ hc hrest := hc.enter hrest

/-! ## Texts -/

lemma Token.points_of_ofText {f : Failure} (h : Token.ofText text = .error f) : f.Points text :=
  Token.holds_of_ofText kept_standing (standing_ofText text) h

lemma DefinitionSet.points_of_ofText {f : Failure} (h : DefinitionSet.ofText text = .error f) :
    f.Points text := by
  unfold DefinitionSet.ofText at h
  cases hread : Token.ofText text with
  | error g =>
    rw [hread] at h
    cases h
    exact Token.points_of_ofText hread
  | ok tokens =>
    rw [hread] at h
    -- the tokens stand in the text where they were read, so the rules start at a sound place
    exact DefinitionSet.holds_of_ofTokens_at keptByRules_sound
      (sound_of_lined (Token.lined_of_ofText hread)) h

end Formulary
