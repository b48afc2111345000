/-
# What failures say

The message of a failure lists what single failures say at one byte of the text.  A text begins
with what is said, and goes on with what was found, so none of them begins like another one: at one
byte there is one character, and one token that is named with what it is written.  Therefore nothing
that is said is missing in the message, and it is said once exactly if no two branches of a choice
that read differently have something to say in common.  So it is where no token can be read; where a
formula is missing it need not be.
-/
import Formulary.Proofs.Grammar.Blame
import Formulary.Proofs.Token.Names
import Formulary.Proofs.Token.Reasons

namespace Formulary

open Text Parsing Failure

variable {text : List Char} {tokens : List (Located Token)} {byte : Nat}

/-! ## Characters -/

namespace Token

/-- What is said of the next character begins with one of these texts. -/
def pointingHeads : List String :=
  "unexpected " :: expectations.map fun what => s!"expected {what}, found "

/-- What was looked for and is missing, up to the end of its quotation. -/
def Missing (text : String) : Prop :=
  ∃ s : List Char, s ⊆ punctuation ∧ text = escapedText s ++ "`"

/-- No punctuation is spelled with a backtick. -/
lemma not_mem_escapedText {s : List Char} (h : s ⊆ punctuation) :
    '`' ∉ (escapedText s).toList := by
  have hfirst : ∀ spelled ∈ punctuation.map fullEscaping.char, '`' ∉ spelled.toList := by
    decide +kernel
  have hlater : ∀ spelled ∈ punctuation.map (Escaping.char ⟨true, true, false⟩),
      '`' ∉ spelled.toList := by decide +kernel
  cases s with
  | nil => exact List.not_mem_nil
  | cons a s =>
    rw [List.cons_subset] at h
    rw [escapedText, String.toList_append, Escaping.text, String.toList_join, List.mem_append,
      not_or]
    refine ⟨hfirst _ (List.mem_map_of_mem h.1), fun hmem => ?_⟩
    obtain ⟨_, hspelled, hmem⟩ := List.mem_flatMap.mp hmem
    exact hlater _ (List.map_subset _ h.2 hspelled) hmem

lemma prefixFree_missing : PrefixFree Missing := by
  refine (prefixFree_of_ending '`').mono ?_
  rintro _ ⟨s, hs, rfl⟩
  exact ⟨_, not_mem_escapedText hs, String.toList_append⟩

/-- At one byte of a text there is one character, or its end. -/
lemma describeNext_unique {c c' : Cursor Char} (h : Standing text c) (h' : Standing text c')
    (hbyte : c.span.start.byte = c'.span.start.byte) : c.describeNext = c'.describeNext := by
  obtain ⟨front, rest, rfl, hst⟩ := h
  obtain ⟨front', rest', htext, hst'⟩ := h'
  have hposition := hst.position_eq
  have hposition' := hst'.position_eq
  rw [Cursor.position] at hposition hposition'
  rw [hposition, hposition'] at hbyte
  have hfront : front = front' := eq_of_byte_eq ⟨rest, rfl⟩ ⟨rest', htext.symm⟩ hbyte
  subst hfront
  obtain rfl := List.append_cancel_left htext
  unfold Cursor.describeNext
  rw [hst.rest_eq, hst'.rest_eq]

/-- What is said of a character does not begin like something else that is said of it. -/
lemma prefixFree_remark : PrefixFree (Remark (Standing text) Says byte) := by
  -- how the remarks begin tells them apart, up to what is named or found there
  have hheads : ("expected `" :: pointingHeads ++ complaints).Pairwise Unlike := by decide +kernel
  let Found (m : String) : Prop :=
    ∃ c, Standing text c ∧ c.span.start.byte = byte ∧ m = c.describeNext
  have hfound : PrefixFree Found := by
    refine prefixFree_of_subsingleton ?_
    rintro _ _ ⟨c, hc, hbyte, rfl⟩ ⟨c', hc', hbyte', rfl⟩
    exact describeNext_unique hc hc' (hbyte.trans hbyte'.symm)
  have htails : ∀ p ∈ ("expected `", Missing) :: pointingHeads.map (·, Found), PrefixFree p.2 :=
    List.forall_mem_cons.mpr ⟨prefixFree_missing, List.forall_mem_map.mpr fun _ _ => hfound⟩
  refine (prefixFree_of_heads_or_mem hheads htails).mono ?_
  rintro m ⟨c, hc, hbyte, hsays⟩
  have hpointing {a : String} (ha : a ∈ pointingHeads) :
      ∃ p ∈ ("expected `", Missing) :: pointingHeads.map (·, Found), ∃ tail, p.2 tail ∧
        a ++ c.describeNext = p.1 ++ tail :=
    ⟨_, List.mem_cons_of_mem _ (List.mem_map_of_mem ha), _, ⟨c, hc, hbyte, rfl⟩, rfl⟩
  cases hsays with
  | expected hwhat => exact .inl (hpointing (List.mem_cons_of_mem _ (List.mem_map_of_mem hwhat)))
  | unexpected => exact .inl (hpointing List.mem_cons_self)
  | missing hs =>
    exact .inl ⟨_, List.mem_cons_self, _, ⟨_, hs, rfl⟩, String.append_assoc ..⟩
  | complaint h => exact .inr h

end Token

/-! ## Tokens -/

namespace Grammar

/-- The tokens to come are in the row or in groups of it. -/
def Among (tokens : List (Located Token)) (c : Cursor Token) : Prop :=
  ∀ t ∈ c.rest, Token.Within tokens t

lemma Among.next {c : Cursor Token} {t : Located Token} {rest : List (Located Token)}
    (h : Among tokens c) (hrest : c.rest = t :: rest) : Token.Within tokens t :=
  h t (hrest ▸ List.mem_cons_self)

lemma Among.found {c : Cursor Token} (h : Among tokens c) :
    Token.Found tokens c.span.start.byte c.describeNext := by
  unfold Cursor.span Cursor.describeNext
  cases hrest : c.rest with
  | nil => exact .inl rfl
  | cons t rest => exact .inr ⟨t, h.next hrest, rfl, rfl⟩

lemma keptByRules_made :
    KeptByRules (Among tokens) fun f => f.Made (Remark (Among tokens) Says f.startByte) where
  toKept := kept_made (fun _ item _ hc hrest t ht =>
    hc t (hrest ▸ List.mem_cons_of_mem item ht)) fun _ => .unexpected
  enter _ _ _ _ _ hc hrest _ ht := (hc.next hrest).inside ht

/-- What is said of the next token begins with one of these texts. -/
def pointingHeads : List String :=
  "unexpected " :: expectations.map fun what => s!"expected {what}, found "

/-- What is said whatever is found. -/
def complaints : List String :=
  ["invalid number literal: invalid float literal", "number literal out of range"]

/-- What is said at one byte does not begin like something else that is said there. -/
lemma prefixFree_remark (h : Token.ofText text = .ok tokens) :
    PrefixFree (Remark (Among tokens) Says byte) := by
  have hheads : ("`" :: pointingHeads ++ complaints).Pairwise Unlike := by decide +kernel
  let Reserved (m : String) : Prop :=
    ∃ name, Token.Labelled tokens byte name ∧
      m = name ++ " is reserved and cannot be used as a name"
  have hreserved : PrefixFree Reserved := by
    refine prefixFree_of_subsingleton ?_
    rintro _ _ ⟨m, hm, rfl⟩ ⟨n, hn, rfl⟩
    rw [Token.labelled_unique h hm hn]
  have htails : ∀ p ∈ ("`", Reserved) :: pointingHeads.map (·, Token.Found tokens byte),
      PrefixFree p.2 :=
    List.forall_mem_cons.mpr
      ⟨hreserved, List.forall_mem_map.mpr fun _ _ => Token.prefixFree_found h byte⟩
  refine (prefixFree_of_heads_or_mem hheads htails).mono ?_
  rintro m ⟨c, hc, rfl, hsays⟩
  have hpointing {a : String} (ha : a ∈ pointingHeads) :
      ∃ p ∈ ("`", Reserved) :: pointingHeads.map (·, Token.Found tokens c.span.start.byte),
        ∃ tail, p.2 tail ∧ a ++ c.describeNext = p.1 ++ tail :=
    ⟨_, List.mem_cons_of_mem _ (List.mem_map_of_mem ha), _, hc.found, rfl⟩
  cases hsays with
  | expected hwhat => exact .inl (hpointing (List.mem_cons_of_mem _ (List.mem_map_of_mem hwhat)))
  | unexpected => exact .inl (hpointing List.mem_cons_self)
  | @reserved name raw span rest hrest =>
    refine .inl ⟨_, List.mem_cons_self, _, ⟨name ++ "`", ⟨_, hc.next hrest, ?_, rfl, rfl⟩, rfl⟩, ?_⟩
    · rw [Cursor.span, hrest]
    · simp only [String.append_assoc]
      rfl
  | invalidNumber => exact .inr List.mem_cons_self
  | numberOutOfRange => exact .inr (List.mem_cons_of_mem _ List.mem_cons_self)

end Grammar

/-! ## Texts -/

lemma Token.made_of_ofText {f : Failure} (h : Token.ofText text = .error f) :
    f.Made (Remark (Standing text) Token.Says f.startByte) :=
  Token.holds_of_ofText (kept_made (fun _ _ _ hc hrest => hc.pass hrest) fun _ => .unexpected)
    (standing_ofText text) h

lemma DefinitionSet.made_of_ofTokens {f : Failure} (h : DefinitionSet.ofTokens tokens = .error f) :
    f.Made (Remark (Grammar.Among tokens) Grammar.Says f.startByte) :=
  DefinitionSet.holds_of_ofTokens_at Grammar.keptByRules_made (fun _ => .top) h

/-- A program that cannot be read is one of tokens that cannot be read, or the tokens are none of a
program. -/
lemma Store.ofText_inv {f : Failure} (h : Store.ofText text = .error f) :
    Token.ofText text = .error f ∨
      ∃ tokens, Token.ofText text = .ok tokens ∧ DefinitionSet.ofTokens tokens = .error f := by
  rw [Store.ofText, DefinitionSet.ofText] at h
  cases hread : Token.ofText text with
  | error g =>
    rw [hread] at h
    cases h
    exact .inl rfl
  | ok tokens =>
    rw [hread] at h
    refine .inr ⟨tokens, rfl, ?_⟩
    change Store.ofProgram <$> DefinitionSet.ofTokens tokens = .error f at h
    cases hprogram : DefinitionSet.ofTokens tokens <;> rw [hprogram] at h <;> cases h
    rfl

/-- A text that cannot be read as tokens is said to lack everything once.  A program that cannot be
read lists what single failures say, in their order and nothing left out, and everything once
exactly if no two branches of a choice that read differently have something to say in common. -/
theorem Store.failure_lists {f : Failure} :
    (Token.ofText text = .error f → f.message = joined f.leaves.eraseDups) ∧
      (Store.ofText text = .error f →
        (∃ shown, Listing f.message f.leaves f.Apart shown) ∧
          (f.message = joined f.leaves.eraseDups ↔ f.Apart)) := by
  have htokens (h : Token.ofText text = .error f) :
      (∃ shown, Listing f.message f.leaves f.Apart shown) ∧
        (f.message = joined f.leaves.eraseDups ↔ f.Apart) :=
    (Token.made_of_ofText h).exists_listing_iff Token.prefixFree_remark
  refine ⟨fun h => (htokens h).2.mpr (Token.apart_of_ofText h), fun h => ?_⟩
  rcases Store.ofText_inv h with h | ⟨tokens, hread, h⟩
  · exact htokens h
  · exact (DefinitionSet.made_of_ofTokens h).exists_listing_iff (Grammar.prefixFree_remark hread)

/-- Where no group is open a `)` is none of the tokens, and where a formula begins a `,` is none of
its. -/
theorem Store.failure_lists_of_comma :
    (∃ f, Token.ofText ")".toList = .error f ∧ f.message = joined f.leaves.eraseDups) ∧
    ∃ f, Store.ofText "x = ,".toList = .error f ∧
      (∃ shown, Listing f.message f.leaves f.Apart shown) ∧
        (f.message = joined f.leaves.eraseDups ↔ f.Apart) := by
  have htokens : (match Token.ofText ")".toList with
      | .error _ => true
      | .ok _ => false) = true := by decide +kernel
  have hprogram : (match Store.ofText "x = ,".toList with
      | .error _ => true
      | .ok _ => false) = true := by decide +kernel
  constructor
  · cases hread : Token.ofText ")".toList with
    | ok ts =>
      rw [hread] at htokens
      cases htokens
    | error f => exact ⟨f, rfl, Store.failure_lists.1 hread⟩
  · cases hread : Store.ofText "x = ,".toList with
    | ok s =>
      rw [hread] at hprogram
      cases hprogram
    | error f => exact ⟨f, rfl, Store.failure_lists.2 hread⟩

/-- A message may say the same thing twice. -/
theorem Store.not_failure_lists_once : ¬∀ (text : List Char) (f : Failure),
    Store.ofText text = .error f → f.message = joined f.leaves.eraseDups := by
  intro h
  have hrun : (match Store.ofText "x = ,".toList with
      | .error f => f.message == joined f.leaves.eraseDups
      | .ok _ => true) = false := by
    decide +kernel
  cases hread : Store.ofText "x = ,".toList with
  | ok s =>
    rw [hread] at hrun
    cases hrun
  | error f =>
    rw [hread] at hrun
    exact ne_of_beq_false hrun (h _ f hread)

end Formulary
