/-
# Accepting tokens

What the rules of the grammar that do not refer to formulas do at a cursor in front of known
tokens, whatever the places of these.  White space is passed as far as it goes, so the conditions
on what may follow a formula look at the first token after it.
-/
import Formulary.Grammar
import Formulary.Proofs.Parsing.Acceptance
import Formulary.Proofs.Token.Bare

namespace Formulary.Grammar

open Text Word Parsing Token

/-- The tokens to come, apart from their places. -/
def Ahead (tokens : List Token) : View Token := fun rest _ => bares rest = tokens

variable {α β : Type} {t : Token} {ts us k : List Token}

/-- The parser accepts the tokens `ts` as something with the property `P`, whatever follows them
that satisfies `F`. -/
def Takes (m : Parser Token α) (F : List Token → Prop) (ts : List Token) (P : α → Prop) : Prop :=
  ∀ ⦃k⦄, F k → Accepts (Ahead (ts ++ k)) m fun a r i => P a ∧ Ahead k r i

/-! ## Single tokens -/

/-- A condition that looks at no places. -/
def Placeless (holds : Token → Bool) : Prop := ∀ t, holds t.bare = holds t

lemma placeless_isSpace : Placeless isSpace := fun t => by
  cases t <;> simp [bare, grouped, isSpace]

lemma placeless_isLineBreak : Placeless isLineBreak := fun t => by
  cases t <;> simp [bare, grouped, isLineBreak]

lemma placeless_isGap : Placeless isGap := fun t => by
  rw [isGap, isGap, placeless_isSpace, placeless_isLineBreak]

lemma placeless_isComma : Placeless isComma := fun t => by
  cases t <;> simp [bare, grouped, isComma]

lemma placeless_isOperator (s : String) : Placeless (isOperator s) := fun t => by
  cases t <;> simp [bare, grouped, Token.isOperator]

lemma placeless_isWord (w : String) : Placeless (isWord w) := fun t => by
  cases t <;> simp [bare, grouped, isWord]

lemma accepts_satisfying_token {what : String} {holds : Token → Bool} (hplaceless : Placeless holds)
    (ht : holds t = true) :
    Accepts (Ahead (t :: k)) (satisfying what holds) fun item r i =>
      item.value.bare = t ∧ Ahead k r i := by
  intro c hc
  obtain ⟨item, rest, hrest, hitem, hk⟩ := bares_eq_cons hc.1
  have hholds : holds item.value = true := by rw [← hplaceless, hitem, ht]
  refine ⟨item, c.pass item rest, ?_, Cursor.Meets.pass ⟨hitem, hk⟩⟩
  rw [Parsing.satisfying, hrest]
  simp [hholds]

lemma rejects_satisfying_token {what : String} {holds : Token → Bool} (hplaceless : Placeless holds)
    (h : ∀ t ∈ ts.head?, holds t = false) : Rejects (Ahead ts) (satisfying what holds) := by
  intro c hc
  rw [Parsing.satisfying]
  cases hrest : c.rest with
  | nil => exact ⟨_, c, rfl, rfl⟩
  | cons item rest =>
    have hhead : ts.head? = some item.value.bare := by
      rw [← hc.1, hrest, bares_cons]
      rfl
    have hholds : holds item.value = false := by rw [← hplaceless, h _ hhead]
    simp only [hholds, Bool.false_eq_true, if_false]
    exact ⟨_, c, rfl, rfl⟩

/-- Passing tokens leaves fewer. -/
lemma length_lt_of_ahead (hts : ts ≠ []) {r r' : List (Located Token)}
    {i i' : Option (Located Token)} (h : Ahead (ts ++ k) r i) (h' : Ahead k r' i') :
    r'.length < r.length := by
  have hlong := congrArg List.length h
  have hshort := congrArg List.length h'
  rw [length_bares] at hlong hshort
  rw [List.length_append] at hlong
  have hpos := List.length_pos_iff.mpr hts
  omega

/-! ## White space -/

lemma accepts_many_satisfying {what : String} {holds : Token → Bool} (hplaceless : Placeless holds)
    (ts : List Token) :
    Accepts (Ahead ts) (many (satisfying what holds)) fun _ => Ahead (ts.dropWhile holds) := by
  induction ts with
  | nil =>
    exact (accepts_many_nil (rejects_satisfying_token hplaceless (by simp))).mono
      fun _ _ _ h => h.2
  | cons t ts ih =>
    cases ht : holds t with
    | false =>
      rw [List.dropWhile_cons, ht, if_neg Bool.false_ne_true]
      refine (accepts_many_nil (rejects_satisfying_token hplaceless ?_)).mono fun _ _ _ h => h.2
      intro u hu
      cases hu
      exact ht
    | true =>
      rw [List.dropWhile_cons, ht, if_pos rfl]
      have hless : ∀ (item : Located Token) r i r' i', Ahead ([t] ++ ts) r i →
          item.value.bare = t ∧ Ahead ts r' i' → r'.length < r.length :=
        fun _ _ _ _ _ h h' => length_lt_of_ahead (by simp) h h'.2
      exact (accepts_many_cons (accepts_satisfying_token hplaceless ht) hless fun item =>
        accepts_and fun _ => ih).mono fun _ _ _ ⟨_, _, _, h⟩ => h

lemma accepts_space (ts : List Token) :
    Accepts (Ahead ts) Grammar.space fun _ => Ahead (ts.dropWhile isSpace) :=
  accepts_bind (accepts_many_satisfying placeless_isSpace ts) fun _ => accepts_pure fun _ _ h => h

lemma accepts_gap (ts : List Token) :
    Accepts (Ahead ts) gap fun _ => Ahead (ts.dropWhile isGap) :=
  accepts_bind (accepts_many_satisfying placeless_isGap ts) fun _ => accepts_pure fun _ _ h => h

/-! ## Words, symbols and groups -/

lemma accepts_word {w : String} :
    Accepts (Ahead (ident w false :: k)) (word w) fun _ => Ahead k :=
  (accepts_satisfying_token (placeless_isWord w) (by simp [isWord])).mono fun _ _ _ h => h.2

lemma rejects_word {w : String} (h : ts.head? ≠ some (ident w false)) :
    Rejects (Ahead ts) (word w) := by
  refine rejects_satisfying_token (placeless_isWord w) fun t ht => ?_
  cases t with
  | ident name raw =>
    rw [isWord, Bool.and_eq_false_iff, beq_eq_false_iff_ne]
    by_cases hname : name = w
    · subst hname
      cases raw with
      | true => exact .inr rfl
      | false => exact absurd ht h
    · exact .inl hname
  | _ => rfl

lemma accepts_symbol {s : String} :
    Accepts (Ahead (operator s :: k)) (symbol s) fun _ => Ahead k :=
  (accepts_satisfying_token (placeless_isOperator s) (by simp [Token.isOperator])).mono
    fun _ _ _ h => h.2

lemma rejects_symbol {s : String} (h : ts.head? ≠ some (operator s)) :
    Rejects (Ahead ts) (symbol s) := by
  refine rejects_satisfying_token (placeless_isOperator s) fun t ht => ?_
  cases t with
  | operator s' =>
    rw [Token.isOperator, beq_eq_false_iff_ne]
    rintro rfl
    exact h ht
  | _ => rfl

lemma accepts_groupOf {what : String} {accepts : GroupKind → Bool} {kind : GroupKind}
    (hkind : accepts kind = true) :
    Accepts (Ahead (grouped kind us :: k)) (groupOf what accepts) fun inner r i =>
      inner.Meets (Ahead us) ∧ Ahead k r i := by
  intro c hc
  obtain ⟨⟨token, span⟩, rest, hrest, htoken, hk⟩ := bares_eq_cons hc.1
  obtain ⟨tokens, rfl, hus⟩ := bare_eq_grouped htoken
  refine ⟨Cursor.before tokens span, c.pass ⟨.group kind tokens, span⟩ rest, ?_,
    Cursor.Meets.pass ⟨⟨hus, fun f hf => by cases hf⟩, hk⟩⟩
  unfold groupOf
  rw [hrest]
  simp [hkind]

lemma rejects_groupOf {what : String} {accepts : GroupKind → Bool}
    (h : ∀ kind us, ts.head? = some (grouped kind us) → accepts kind = false) :
    Rejects (Ahead ts) (groupOf what accepts) := by
  intro c hc
  unfold groupOf
  split
  · rename_i kind tokens span rest hrest
    have hhead : ts.head? = some (grouped kind (bares tokens)) := by
      rw [← hc.1, hrest, bares_cons, bare]
      rfl
    rw [if_neg (by rw [h kind _ hhead]; exact Bool.false_ne_true)]
    exact ⟨_, c, rfl, rfl⟩
  · exact ⟨_, c, rfl, rfl⟩

lemma accepts_parens :
    Accepts (Ahead (grouped .parens us :: k)) parens fun inner r i =>
      inner.Meets (Ahead us) ∧ Ahead k r i :=
  accepts_groupOf rfl

lemma rejects_parens (h : ∀ us, ts.head? ≠ some (grouped .parens us)) :
    Rejects (Ahead ts) parens := by
  refine rejects_groupOf fun kind us hhead => ?_
  cases kind with
  | parens => exact absurd hhead (h us)
  | _ => rfl

lemma accepts_name {n : String} {raw : Bool} (h : raw = true ∨ isReserved n = false) :
    Accepts (Ahead (ident n raw :: k)) name fun m r i => m = n ∧ Ahead k r i := by
  intro c hc
  obtain ⟨⟨token, span⟩, rest, hrest, htoken, hk⟩ := bares_eq_cons hc.1
  cases token with
  | ident n' raw' =>
    rw [bare, ident.injEq] at htoken
    obtain ⟨rfl, rfl⟩ := htoken
    refine ⟨n', c.pass ⟨.ident n' raw', span⟩ rest, ?_, Cursor.Meets.pass ⟨rfl, hk⟩⟩
    unfold name
    rw [hrest]
    rcases h with rfl | h
    · rfl
    · simp [h]
  | _ => simp [bare, grouped] at htoken

lemma rejects_name (h : ∀ n raw, ts.head? = some (ident n raw) → raw = false ∧ isReserved n = true) :
    Rejects (Ahead ts) name := by
  intro c hc
  unfold name
  split
  · rename_i n raw span rest hrest
    have hhead : ts.head? = some (ident n raw) := by
      rw [← hc.1, hrest, bares_cons, bare]
      rfl
    obtain ⟨rfl, hreserved⟩ := h n raw hhead
    simp only [hreserved, Bool.not_false, Bool.and_self, if_true]
    exact ⟨_, c, rfl, rfl⟩
  · exact ⟨_, c, rfl, rfl⟩

lemma accepts_infixOperator {s : String} (hs : Word.isOperator s = true) :
    Accepts (Ahead (operator s :: k)) infixOperator fun o r i => o.value = s ∧ Ahead k r i := by
  intro c hc
  obtain ⟨⟨token, span⟩, rest, hrest, htoken, hk⟩ := bares_eq_cons hc.1
  cases token with
  | operator s' =>
    rw [bare, operator.injEq] at htoken
    subst htoken
    refine ⟨⟨s', span⟩, c.pass ⟨.operator s', span⟩ rest, ?_, Cursor.Meets.pass ⟨rfl, hk⟩⟩
    unfold infixOperator
    rw [hrest]
    simp [hs]
  | _ => simp [bare, grouped] at htoken

lemma rejects_infixOperator (h : ∀ s, ts.head? = some (operator s) → Word.isOperator s = false) :
    Rejects (Ahead ts) infixOperator := by
  intro c hc
  unfold infixOperator
  split
  · rename_i s span rest hrest
    have hhead : ts.head? = some (operator s) := by
      rw [← hc.1, hrest, bares_cons, bare]
      rfl
    rw [if_neg (by rw [h s hhead]; exact Bool.false_ne_true)]
    exact ⟨_, c, rfl, rfl⟩
  · exact ⟨_, c, rfl, rfl⟩

end Formulary.Grammar
