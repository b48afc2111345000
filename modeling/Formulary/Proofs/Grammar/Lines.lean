/-
# Accepting rows on lines of their own

The definitions of a set and the cases of a switch stand in rows that are separated by line
breaks, some more of which may follow each row.  Such rows are accepted one after the other.
-/
import Formulary.Proofs.Grammar.Primaries

namespace Formulary.Grammar

open Text Word Parsing Token

variable {α β : Type} {ts us vs k : List Token}

/-! ## Rows on lines of their own -/

/-- Rows that are separated by line breaks, each of them related to an element. -/
inductive Lines (R : List Token → β → Prop) : List Token → List β → Prop
  | nil : Lines R [] []
  | single {ts us : List Token} {b : β} (h : R ts b) (hus : Trails us) : Lines R (ts ++ us) [b]
  | cons {ts us vs : List Token} {b c : β} {bs : List β} (h : R ts b) (hus : Trails us)
      (rest : Lines R vs (c :: bs)) :
      Lines R (ts ++ Token.lineBreak :: (us ++ vs)) (b :: c :: bs)

/-- A row ends in front of these tokens. -/
def EndsLine (k : List Token) : Prop :=
  k = [] ∨ ∃ us vs, k = Token.lineBreak :: (us ++ vs) ∧ Trails us ∧ (vs = [] ∨ Begins vs)

lemma EndsLine.endsFormula (h : EndsLine k) : EndsFormula k := by
  rcases h with rfl | ⟨us, vs, rfl, hus, hvs⟩
  · exact endsFormula_nil
  · refine endsFormula_lineBreak ?_
    rw [NoArrow, hus.dropWhile_isGap_append]
    rcases hvs with rfl | hvs
    · exact fun hhead => by cases hhead
    · exact hvs.noArrow

/-- The parser passes the line breaks between two rows. -/
structure Parts (separator : Parser Token α) : Prop where
  rejects_nil : Rejects (Ahead []) separator
  accepts : ∀ ⦃us vs⦄, Trails us → vs = [] ∨ Begins vs →
    Accepts (Ahead (Token.lineBreak :: (us ++ vs))) separator fun _ => Ahead vs

lemma dropWhile_isGap_of_begins_or_nil (h : vs = [] ∨ Begins vs) : vs.dropWhile isGap = vs := by
  rcases h with rfl | h
  · rfl
  · exact h.dropWhile_isGap

lemma parts_lineBreak : Parts Grammar.lineBreak where
  rejects_nil := rejects_bind (accepts_space []) fun _ => rejects_bind_left
    (rejects_satisfying_token placeless_isLineBreak fun _ h => by cases h)
  accepts us vs hus hvs := by
    refine accepts_bind (accepts_space _) fun _ => ?_
    refine accepts_bind (accepts_satisfying_token placeless_isLineBreak rfl) fun _ =>
      accepts_and fun _ => ?_
    have hgap := accepts_gap (us ++ vs)
    rwa [hus.dropWhile_isGap_append, dropWhile_isGap_of_begins_or_nil hvs] at hgap

/-- Where a comma may separate rows as well, line breaks still do. -/
lemma parts_commaOrLineBreak : Parts (choice [Grammar.comma, Grammar.lineBreak]) where
  rejects_nil := by
    refine rejects_choice (forall_mem_pair ?_ ?_)
    · exact rejects_comma fun h => by cases h
    · exact parts_lineBreak.rejects_nil
  accepts us vs hus hvs := by
    refine accepts_choice_of_rejects (rejects_comma ?_)
      (accepts_choice_cons (parts_lineBreak.accepts hus hvs))
    have hdrop : (Token.lineBreak :: (us ++ vs)).dropWhile isGap = vs := by
      have hgap : isGap Token.lineBreak = true := rfl
      rw [List.dropWhile_cons, if_pos hgap, hus.dropWhile_isGap_append,
        dropWhile_isGap_of_begins_or_nil hvs]
    rw [hdrop]
    rcases hvs with rfl | ⟨t, us, rfl, ht⟩
    · simp
    · rintro ⟨⟩
      cases ht

section Rows

variable {R : List Token → β → Prop} {element : Parser Token (Option α)}
  {separator : Parser Token Unit} {of : α → β} {bs : List β}

lemma Lines.begins (h : Lines R ts bs) (hne : bs ≠ []) (hR : ∀ ts b, R ts b → Begins ts) :
    Begins ts := by
  cases h with
  | nil => exact absurd rfl hne
  | single h _ => exact (hR _ _ h).append _
  | cons h _ _ => exact (hR _ _ h).append _

/-- Rows are accepted one after the other, up to the end. -/
lemma Lines.accepts (h : Lines R ts bs) (hR : ∀ ts b, R ts b → Begins ts)
    (hnone : Accepts (Ahead []) element fun o r i => o = none ∧ Ahead [] r i)
    (hsome : ∀ ⦃ts b k⦄, R ts b → EndsLine k →
      Accepts (Ahead (ts ++ k)) element fun o r i => ∃ a, o = some a ∧ of a = b ∧ Ahead k r i)
    (hseparator : Parts separator) :
    Accepts (Ahead ts) (separated element separator) fun as r i =>
      as.map of = bs ∧ Ahead [] r i := by
  have hno : Accepts (Ahead []) (separated element separator) fun as r i =>
      as = [] ∧ Ahead [] r i := accepts_separated_none hnone
  -- a row with a line break after it, in front of rows that are accepted already
  have hcons {ts us vs : List Token} {b : β} {bs : List β} (h : R ts b) (hus : Trails us)
      (hvs : vs = [] ∨ Begins vs) (hmore : Accepts (Ahead vs) (separated element separator)
        fun as r i => as.map of = bs ∧ Ahead [] r i) :
      Accepts (Ahead (ts ++ Token.lineBreak :: (us ++ vs))) (separated element separator)
        fun as r i => as.map of = b :: bs ∧ Ahead [] r i := by
    have hfirst := hsome h (.inr ⟨us, vs, rfl, hus, hvs⟩)
    refine (accepts_separated_cons hfirst (fun a => accepts_and fun ha =>
      (hseparator.accepts hus hvs).mono fun _ r i hr => And.intro ha hr) ?_ fun a =>
        accepts_and fun ha => hmore.mono fun as r i hr => And.intro (And.intro ha hr.1) hr.2).mono ?_
    · intro a r i r' i' hr hr'
      have hlong : Ahead ((ts ++ Token.lineBreak :: us) ++ vs) r i := by
        rwa [List.append_assoc, List.cons_append]
      exact length_lt_of_ahead (by simp) hlong hr'.2
    · rintro _ r i ⟨a, as, rfl, ⟨ha, has⟩, hr⟩
      exact ⟨by rw [List.map_cons, ha, has], hr⟩
  induction h with
  | nil =>
    refine hno.mono ?_
    rintro as r i ⟨rfl, hr⟩
    exact ⟨rfl, hr⟩
  | @single ts us b h hus =>
    cases us with
    | nil =>
      refine (accepts_separated_last (hsome h (.inl rfl)) fun a =>
        rejects_and fun _ => hseparator.rejects_nil).mono ?_
      rintro _ r i ⟨a, rfl, ha, hr⟩
      exact ⟨by rw [List.map_singleton, ha], hr⟩
    | cons u us =>
      obtain rfl := hus u List.mem_cons_self
      have hend := hcons h (fun u hu => hus u (List.mem_cons_of_mem _ hu)) (.inl rfl)
        (hno.mono fun as r i hr => ⟨by rw [hr.1, List.map_nil], hr.2⟩)
      rwa [List.append_nil] at hend
  | cons h hus hrest ih => exact hcons h hus (.inr (hrest.begins (by simp) hR)) ih

/-- White space around rows is passed. -/
lemma Lines.dropWhile_isGap (h : Lines R ts bs) (hR : ∀ ts b, R ts b → Begins ts) :
    ts.dropWhile isGap = ts := by
  refine dropWhile_isGap_of_begins_or_nil ?_
  cases h with
  | nil => exact .inl rfl
  | single h _ => exact .inr ((hR _ _ h).append _)
  | cons h _ _ => exact .inr ((hR _ _ h).append _)

end Rows

end Formulary.Grammar
