/-
# What reading tokens fails with

A property that the combinators keep holds of every failure of a text, if the places of its
characters have what it is said of.  What is said is one of a few texts that go on with what was
found, a text that was looked for, or a complaint about what was read.
-/
import Formulary.Proofs.Parsing.Failures
import Formulary.Token.Reading

namespace Formulary.Token

open Text Word Parsing

/-! ## What is said -/

/-- What is expected somewhere. -/
def expectations : List String :=
  [namePattern, numberPattern, rawOpeningPattern, operatorPattern, blankPattern,
    spacePattern].map (fun p => s!"/{p.source}/") ++ ["a string character", "a group"]

/-- The characters that are looked for one by one. -/
def punctuation : List Char := [',', '"', '#', '\\', '\n', '(', ')', '[', ']', '\x7b', '\x7d']

/-- What is said whatever is found. -/
def complaints : List String :=
  ["expected a keyword", "expected a number",
    "a number literal cannot be followed by an identifier character",
    "expected an indented block"]

/-- What is said at a place. -/
inductive Says (c : Cursor Char) : String → Prop
  | expected {what : String} (h : what ∈ expectations) :
      Says c s!"expected {what}, found {c.describeNext}"
  | missing {s : List Char} (h : s ⊆ punctuation) : Says c s!"expected `{escapedText s}`"
  | complaint {text : String} (h : text ∈ complaints) : Says c text
  | unexpected : Says c c.unexpected

lemma expects_of_mem {what : String} (h : what ∈ expectations) : Expects Says what :=
  fun _ => .expected h

/-- A quoted name is closed by a quote and number signs. -/
lemma closing_subset_punctuation {n : Nat} : '"' :: List.replicate n '#' ⊆ punctuation := by
  refine List.cons_subset.mpr ⟨by decide, fun a ha => ?_⟩
  rw [List.eq_of_mem_replicate ha]
  decide

lemma mem_punctuation_of_delimiters {kind : GroupKind} {a b : Char}
    (h : kind.delimiters = some (a, b)) : a ∈ punctuation ∧ b ∈ punctuation := by
  cases kind <;> cases h <;> decide

variable {K : Cursor Char → Prop} {P : Failure → Prop} (hP : Failure.Kept K Says P)

include hP

/-! ## Single tokens -/

lemma blames_exactly {s : List Char} (h : s ⊆ punctuation) : Blames K (exactly s) P :=
  blames_literal hP (fun _ => .missing h) s

lemma blames_pattern {p : Pattern Char} (h : s!"/{p.source}/" ∈ expectations) :
    Blames K (matching p) P := blames_matching hP p (expects_of_mem h)

lemma blames_complaint {α : Type} {text : String} (h : text ∈ complaints) :
    Blames K (failHere text : Parser Char α) P := blames_failHere hP fun _ => .complaint h

lemma blames_readKeyword : Blames K readKeyword P := by
  refine blames_get fun c hc => blames_bind (blames_pattern hP (by decide)) fun word => ?_
  split
  · exact blames_pure _
  · exact blames_pure _
  · exact blames_throw (hc.because hP (.complaint (by decide)))

lemma blames_readComma : Blames K readComma P :=
  blames_bind (blames_exactly hP (by decide)) fun _ => blames_pure _

lemma blames_readNumber : Blames K readNumber P := by
  refine blames_get fun c _ => ?_
  split
  · exact blames_complaint hP (by decide)
  · refine blames_bind (blames_pattern hP (by decide)) fun cs => blames_get fun c' _ => ?_
    split
    · exact blames_complaint hP (by decide)
    · exact blames_pure _

lemma blames_readTextChar : Blames K readTextChar P := by
  refine blames_choice hP (forall_mem_pair ?_ ?_)
  · exact blames_bind (blames_exactly hP (by decide)) fun _ => blames_bind (blames_next hP) fun _ =>
      blames_pure _
  · exact blames_map _ (blames_satisfying hP (expects_of_mem (by decide)) _)

lemma blames_readText : Blames K readText P :=
  blames_bind (blames_delimited (blames_exactly hP (by decide)) (blames_exactly hP (by decide))
    (blames_many (blames_readTextChar hP))) fun _ => blames_pure _

lemma blames_readRawName : Blames K readRawName P :=
  blames_bind (blames_pattern hP (by decide)) fun _ =>
    blames_bind (blames_takeUntil hP (blames_exactly hP closing_subset_punctuation)) fun _ =>
      blames_bind (blames_exactly hP closing_subset_punctuation) fun _ => blames_pure _

lemma blames_readBareName : Blames K readBareName P :=
  blames_bind (blames_pattern hP (by decide)) fun _ => blames_pure _

lemma blames_readOperator : Blames K readOperator P :=
  blames_bind (blames_pattern hP (by decide)) fun _ => blames_pure _

lemma blames_readBlank : Blames K readBlank P :=
  blames_bind (blames_pattern hP (by decide)) fun _ => blames_pure _

/-! ## Groups and rows -/

lemma blames_readReference : Blames K readReference P := by
  refine blames_get fun c hc => ?_
  split
  · split
    · exact blames_bind (blames_takeItems hP _) fun _ => blames_pure _
    · exact blames_complaint hP (by decide)
  · split
    · rename_i hend
      exact blames_throw (hc.endOfInput hP (List.isEmpty_iff.mp hend))
    · exact blames_pure _

section Contents

variable {contents : Option Nat → Parser Char (List (Located Token))}
  (h : ∀ reference, Blames K (contents reference) P)

include h

lemma blames_readGroup : Blames K (readGroup contents) P := by
  refine blames_peek_bind hP fun item c hc _ => ?_
  dsimp only
  cases hfind : [GroupKind.parens, .brackets, .braces].find?
      (·.delimiters.any (·.1 == item.value)) with
  | none => exact hc.expected hP (expects_of_mem (by decide))
  | some kind =>
    have hfound := List.find?_some hfind
    obtain ⟨⟨a, b⟩, hkind, ha⟩ := (Option.any_eq_true _ _).mp hfound
    obtain rfl := beq_iff_eq.mp ha
    obtain ⟨hopening, hclosing⟩ := mem_punctuation_of_delimiters hkind
    refine blames_bind (blames_delimited (blames_exactly hP ?_) (blames_exactly hP ?_) (h none))
      (fun _ => blames_pure _) hc
    · exact List.cons_subset.mpr ⟨hopening, List.nil_subset _⟩
    · rw [hkind]
      exact List.cons_subset.mpr ⟨hclosing, List.nil_subset _⟩

lemma blames_readToken : Blames K (readToken contents) P := by
  refine blames_get fun _ _ => blames_bind (blames_choice hP fun m hm => ?_) fun _ =>
    blames_get fun _ _ => blames_pure _
  simp only [List.mem_cons, List.not_mem_nil, or_false] at hm
  rcases hm with rfl | rfl | rfl | rfl | rfl | rfl | rfl | rfl | rfl
  · exact blames_readKeyword hP
  · exact blames_readComma hP
  · exact blames_readNumber hP
  · exact blames_readText hP
  · exact blames_readRawName hP
  · exact blames_readBareName hP
  · exact blames_readOperator hP
  · exact blames_readGroup hP h
  · exact blames_readBlank hP

lemma blames_readBlock (enclosing : Nat) : Blames K (readBlock contents enclosing) P := by
  refine blames_get fun _ _ =>
    blames_bind (blames_optional (blames_pattern hP (by decide))) fun _ =>
      blames_bind (blames_exactly hP (by decide)) fun _ =>
        blames_bind (blames_readReference hP) fun _ => ?_
  split
  · exact blames_complaint hP (by decide)
  · exact blames_bind (h _) fun _ => blames_get fun _ _ => blames_pure _

lemma blames_readStep (reference : Option Nat) : Blames K (readStep contents reference) P := by
  refine blames_get fun c _ => ?_
  split
  · exact blames_pure _
  · refine blames_bind (blames_optional (blames_readToken hP h)) ?_
    rintro (_ | token)
    · exact blames_pure _
    · dsimp only
      split
      · refine blames_bind (blames_optional (blames_readBlock hP h _)) ?_
        rintro (_ | block) <;> exact blames_pure _
      · exact blames_pure _

lemma blames_readRow (reference : Option Nat) : Blames K (readRow contents reference) P :=
  blames_map _ (blames_collect (blames_readStep hP h reference))

end Contents

/-- Every failure of a row of tokens has a property that the combinators keep. -/
theorem blames_readTokens (reference : Option Nat) : Blames K (readTokens reference) P :=
  blames_fix hP (fun _ hg reference => blames_readRow hP hg reference) reference

/-- Every failure of a text has a property that the combinators keep from its beginning. -/
theorem holds_of_ofText {text : List Char} {f : Failure} (hstart : K (Cursor.ofText text))
    (h : ofText text = .error f) : P f := by
  have hrun := blames_readTokens hP none (c := Cursor.ofText text)
    ⟨hstart, fun f hf => by cases hf⟩
  unfold ofText at h
  split at h
  · rename_i hread
    rw [hread] at hrun
    split at h
    · cases h
    · cases h
      exact Cursor.Records.blame hP hrun
  · rename_i hread
    rw [hread] at hrun
    cases h
    exact hrun

end Formulary.Token
