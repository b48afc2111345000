/-
# How tokens are named

A message names what was found.  The name of a word, an operator or a number tells how it is
written, that of any other token only its kind.  At one byte of a text there is at most one of the
former, in whatever group it is, so the names of the tokens that begin there do not begin like each
other.
-/
import Formulary.Proofs.Parsing.Messages
import Formulary.Proofs.Token.Lined
import Formulary.Proofs.Token.Lossless

namespace Formulary.Token

open Text Parsing

variable {T : Located Token → Prop} {lo hi byte : Nat} {tokens ts : List (Located Token)}
  {t u : Located Token}

/-- The name of the token tells how it is written. -/
def isNamed : Token → Bool
  | ident .. | operator _ | number .. => true
  | bool _ | null | text _ | comma | space | lineBreak | group .. => false

/-! ## Tokens at one byte -/

lemma not_within_nil : ¬Within [] t := by
  intro h
  induction h with
  | top ht => cases ht
  | inside _ _ ih => exact ih

/-- A token of a row is the first one, in the first one, or a token of the others. -/
lemma within_cons (h : Within (u :: ts) t) :
    t = u ∨ (∃ kind us, u.value = .group kind us ∧ Within us t) ∨ Within ts t := by
  induction h with
  | top ht => exact (List.mem_cons.mp ht).imp_right fun ht => .inr (.top ht)
  | @inside t kind us span _ ht ih =>
    rcases ih with hu | ⟨kind', vs, hu, hin⟩ | hin
    · exact .inr (.inl ⟨kind, us, by rw [← hu], .top ht⟩)
    · exact .inr (.inl ⟨kind', vs, hu, hin.inside ht⟩)
    · exact .inr (.inr (hin.inside ht))

lemma Within.of_tail (h : Within ts t) : Within (u :: ts) t := by
  induction h with
  | top ht => exact .top (List.mem_cons_of_mem u ht)
  | inside _ ht ih => exact ih.inside ht

lemma Within.of_group {kind : GroupKind} {us : List (Located Token)} (h : Within us t)
    (hu : u.value = .group kind us) : Within (u :: ts) t := by
  induction h with
  | top ht => exact .inside (.top (List.mem_cons.mpr (.inl (by rw [← hu])))) ht
  | inside _ ht ih => exact ih.inside ht

/-- Every token lies between the ends of its row. -/
lemma Orderly.bounds (h : Orderly T lo hi ts) (ht : Within ts t) :
    lo ≤ t.span.start.byte ∧ t.span.stop.byte ≤ hi := by
  induction h with
  | nil => exact absurd ht not_within_nil
  | cons _ hlo hle _ tail ihinside ihtail =>
    have hhi := tail.le
    rcases within_cons ht with rfl | ⟨kind, us, hu, hin⟩ | hin
    · exact ⟨hlo, hhi⟩
    · have hinside := ihinside kind us hu hin
      omega
    · have htail := ihtail hin
      omega

/-- Of two tokens that tell how they are written, none begins in the other one. -/
lemma Orderly.eq_of_startByte (h : Orderly T lo hi ts)
    (hextent : ∀ t, Within ts t → t.value.isNamed = true → t.span.start.byte < t.span.stop.byte)
    (ht : Within ts t) (hu : Within ts u) (htn : t.value.isNamed = true)
    (hun : u.value.isNamed = true) (hbyte : t.span.start.byte = u.span.start.byte) : t = u := by
  induction h with
  | nil => exact absurd ht not_within_nil
  | @cons lo hi w ts _ hlo hle inside tail ihinside ihtail =>
    have hgroup {v : Located Token} {kind : GroupKind} {us : List (Located Token)}
        (hv : v.value = .group kind us) : v.value.isNamed ≠ true := by
      rw [hv]
      exact Bool.false_ne_true
    -- what is in the first token begins before its end, and the others do not
    have hfront {v : Located Token} {kind : GroupKind} {us : List (Located Token)}
        (hw : w.value = .group kind us) (hv : Within us v) (hvn : v.value.isNamed = true) :
        v.span.start.byte < w.span.stop.byte :=
      Nat.lt_of_lt_of_le (hextent v (hv.of_group hw) hvn) ((inside kind us hw).bounds hv).2
    have hback {v : Located Token} (hv : Within ts v) : w.span.stop.byte ≤ v.span.start.byte :=
      (tail.bounds hv).1
    rcases within_cons ht with rfl | ⟨kind, us, hw, hin⟩ | hin <;>
      rcases within_cons hu with rfl | ⟨kind', us', hw', hin'⟩ | hin'
    · rfl
    · exact absurd htn (hgroup hw')
    · have := hextent t ht htn
      have := hback hin'
      omega
    · exact absurd hun (hgroup hw)
    · rw [hw] at hw'
      cases hw'
      exact ihinside kind us hw (fun v hv => hextent v (hv.of_group hw)) hin hin'
    · have := hfront hw hin htn
      have := hback hin'
      omega
    · have := hextent u hu hun
      have := hback hin
      omega
    · have := hfront hw' hin' hun
      have := hback hin
      omega
    · exact ihtail (fun v hv => hextent v hv.of_tail) hin hin'

/-- At one byte of a text there is only one token that tells how it is written. -/
theorem eq_of_startByte {text : List Char} (h : ofText text = .ok tokens) (ht : Within tokens t)
    (hu : Within tokens u) (htn : t.value.isNamed = true) (hun : u.value.isNamed = true)
    (hbyte : t.span.start.byte = u.span.start.byte) : t = u := by
  refine (lined_of_ofText h).eq_of_startByte (fun v hv hvn => ?_) ht hu htn hun hbyte
  obtain ⟨before, cs, _, -, hspan, ⟨-, hne⟩ | ⟨hbreak, -⟩⟩ :=
    (tiles_of_ofText h).covers_of_within hv
  · rw [hspan, Position.after_append]
    exact byte_lt_after hne
  · rw [hbreak] at hvn
    cases hvn

/-! ## Names -/

/-- What the name of a token tells about how it is written. -/
def label : Token → String
  | ident name _ => name ++ "`"
  | operator symbol => symbol ++ "`"
  | number whole none => whole ++ "`"
  | number whole (some fraction) => whole ++ "." ++ fraction ++ "`"
  | bool _ | null | text _ | comma | space | lineBreak | group .. => ""

/-- A token at the byte tells how it is written. -/
def Labelled (tokens : List (Located Token)) (byte : Nat) (text : String) : Prop :=
  ∃ t, Within tokens t ∧ t.span.start.byte = byte ∧ t.value.isNamed = true ∧ text = t.value.label

/-- Something is found at the byte: a token, or the end of a row. -/
def Found (tokens : List (Located Token)) (byte : Nat) (text : String) : Prop :=
  text = "end of input" ∨
    ∃ t, Within tokens t ∧ t.span.start.byte = byte ∧ text = t.value.describe

/-- What names begin with that tell how a token is written. -/
def labelHeads : List String := ["identifier `", "raw identifier `", "operator `", "number `"]

/-- The names that tell only of which kind a token is. -/
def kindNames : List String :=
  ["boolean `true`", "boolean `false`", "`null`", "string", "`,`", "whitespace", "line break",
    "`(...)` group", "`[...]` group", "`\x7b...\x7d` group", "indented block", "end of input"]

lemma exists_labelHead (t : Token) :
    (t.isNamed = true ∧ ∃ a ∈ labelHeads, t.describe = a ++ t.label) ∨ t.describe ∈ kindNames := by
  cases t with
  | ident name raw =>
    cases raw with
    | false => exact .inl ⟨rfl, "identifier `", by decide, (String.append_assoc ..)⟩
    | true => exact .inl ⟨rfl, "raw identifier `", by decide, (String.append_assoc ..)⟩
  | operator symbol => exact .inl ⟨rfl, "operator `", by decide, (String.append_assoc ..)⟩
  | number whole fraction =>
    refine .inl ⟨rfl, "number `", by decide, ?_⟩
    cases fraction with
    | none => exact String.append_assoc ..
    | some fraction =>
      show "number `" ++ whole ++ "." ++ fraction ++ "`" =
        "number `" ++ (whole ++ "." ++ fraction ++ "`")
      simp only [String.append_assoc]
  | bool value => cases value <;> exact .inr (by decide)
  | group kind _ =>
    have hkind : (group kind []).describe ∈ kindNames := by cases kind <;> decide
    exact .inr hkind
  | text _ => exact .inr (show (text "").describe ∈ kindNames by decide)
  | _ => exact .inr (by decide)

lemma labelled_unique {text : List Char} (h : ofText text = .ok tokens) {m n : String}
    (hm : Labelled tokens byte m) (hn : Labelled tokens byte n) : m = n := by
  obtain ⟨t, ht, htb, htn, rfl⟩ := hm
  obtain ⟨u, hu, hub, hun, rfl⟩ := hn
  rw [eq_of_startByte h ht hu htn hun (htb.trans hub.symm)]

/-- What is found at one byte does not begin like something else that is found there. -/
lemma prefixFree_found {text : List Char} (h : ofText text = .ok tokens) (byte : Nat) :
    PrefixFree (Found tokens byte) := by
  have hheads : (labelHeads ++ kindNames).Pairwise Unlike := by decide +kernel
  have htails : ∀ p ∈ labelHeads.map (·, Labelled tokens byte), PrefixFree p.2 :=
    List.forall_mem_map.mpr fun _ _ => prefixFree_of_subsingleton fun _ _ => labelled_unique h
  refine (prefixFree_of_heads_or_mem hheads htails).mono ?_
  rintro m (rfl | ⟨t, ht, htb, rfl⟩)
  · exact .inr (by decide)
  · refine (exists_labelHead t.value).imp_left ?_
    rintro ⟨hn, a, ha, heq⟩
    exact ⟨_, List.mem_map_of_mem ha, t.value.label, ⟨t, ht, htb, hn, rfl⟩, heq⟩

end Formulary.Token
