/-
# Accepting rows of tokens

The kinds of token are tried in a fixed order, so a canonical spelling is read as its token
because all kinds before it reject it.  A row is read token by token, up to the end of the group
or block that it belongs to.
-/
import Formulary.Proofs.Token.Bare
import Formulary.Proofs.Token.Recursion
import Formulary.Proofs.Token.Single

namespace Formulary.Token

open Text Word Parsing

variable {p : Option Char} {c : Char} {cs ds : List Char}

section Contents

variable {contents : Option Nat → Parser Char (List (Located Token))}

/-! ## The next token -/

/-- The next token is what the choice among the kinds gives, with its place. -/
lemma accepts_readToken {V : View Char} {W : Token → View Char}
    (h : Accepts V (choice [readKeyword, readComma, readNumber, readText, readRawName, readBareName,
      readOperator, readGroup contents, readBlank]) W) :
    Accepts V (readToken contents) fun t => W t.value :=
  accepts_get fun _ _ => accepts_bind h fun _ => accepts_get fun _ _ =>
    accepts_pure fun _ _ hr => hr

lemma accepts_readToken_keyword {w : String} {k : Keyword} (h : isBareName w = true)
    (hkey : keyword? w = some k) (hds : Stops ds) :
    Accepts (Around p (w.toList ++ ds)) (readToken contents) fun t r i =>
      t.value = ofKeyword k ∧ Around (lastOf p w.toList) ds r i :=
  accepts_readToken <| accepts_choice_cons <|
    accepts_readKeyword h hkey fun d hd => (class_of_delimiter (hds d hd)).1

lemma accepts_readToken_comma :
    Accepts (Around p (',' :: ds)) (readToken contents) fun t r i =>
      t.value = comma ∧ Around (some ',') ds r i := by
  refine accepts_readToken (accepts_choice_of_rejects (rejects_readKeyword ?_)
    (accepts_choice_cons accepts_readComma))
  intro c hc
  cases hc
  decide

/-- A number is followed by a delimiter, and a minus in front of it does not follow an operand
directly. -/
lemma accepts_readToken_number (n : Numeral)
    (hp : n.negative = true → ∀ c ∈ p, endsOperand c = false) (hds : Stops ds) :
    Accepts (Around p (n.text ++ ds)) (readToken contents) fun t r i =>
      t.value = ofNumeral n ∧ Around (lastOf p n.text) ds r i := by
  have hhead : ∀ c ∈ (n.text ++ ds).head?, isNameStart c = false ∧ c ≠ ',' := by
    unfold Numeral.text Numeral.sign
    cases hneg : n.negative with
    | true =>
      intro c hc
      cases hc
      decide
    | false =>
      cases hwhole : n.whole with
      | nil => exact absurd hwhole n.whole_ne_nil
      | cons d whole =>
        intro c hc
        cases hc
        have hclass := class_of_digit (n.isDigit_of_mem d (by simp [hwhole]))
        refine ⟨hclass.1, ?_⟩
        rintro rfl
        exact hclass.2.2 (by simp)
  refine accepts_readToken (accepts_choice_of_rejects
    (rejects_readKeyword fun c hc => (hhead c hc).1) (accepts_choice_of_rejects
      (rejects_readComma fun hc => (hhead ',' hc).2 rfl) (accepts_choice_cons
        (accepts_readNumber n hp (endsNumber_of_head fun d hd => ?_)))))
  have hclass := class_of_delimiter (hds d hd)
  exact ⟨hclass.1, hclass.2.2.1⟩

lemma accepts_readToken_text {es : List Char} {v : String} (h : Unescapes es v.toList) :
    Accepts (Around p ('"' :: es ++ '"' :: ds)) (readToken contents) fun t r i =>
      t.value = text v ∧ Around (some '"') ds r i := by
  refine accepts_readToken (accepts_choice_of_rejects (rejects_readKeyword ?_)
    (accepts_choice_of_rejects (rejects_readComma (by simp)) (accepts_choice_of_rejects
      (rejects_readNumber (length?_numberPattern_eq_none ?_))
      (accepts_choice_cons (accepts_readText h)))))
  all_goals
    intro c hc
    cases hc
    decide

lemma accepts_readToken_quotedName {k : Nat} {n : String} (h : Unclosed k n.toList) :
    Accepts (Around p (quotedName k n.toList ++ ds)) (readToken contents) fun t r i =>
      t.value = ident n true ∧ Around (lastOf p (quotedName k n.toList)) ds r i := by
  -- the letter in front is a word of its own, but no keyword
  obtain ⟨e, es, hes, he⟩ : ∃ e es, quotedName k n.toList ++ ds = "r".toList ++ e :: es ∧
      (e = '#' ∨ e = '"') := by
    cases k with
    | zero => exact ⟨'"', _, rfl, .inr rfl⟩
    | succ j => exact ⟨'#', _, rfl, .inl rfl⟩
  have hraw : Accepts (Around p (quotedName k n.toList ++ ds)) readRawName _ := accepts_readRawName h
  rw [hes] at hraw ⊢
  refine accepts_readToken (accepts_choice_of_rejects ?_ (accepts_choice_of_rejects
    (rejects_readComma (by simp)) (accepts_choice_of_rejects
      (rejects_readNumber (length?_numberPattern_eq_none (by simp)))
      (accepts_choice_of_rejects (rejects_readText (by simp)) (accepts_choice_cons hraw)))))
  refine rejects_readKeyword_of_name (by decide) (by decide) ?_
  rintro c ⟨⟩
  rcases he with rfl | rfl <;> decide

lemma keyword?_of_not_reserved {n : String} (h : isReserved n = false) : keyword? n = none := by
  have hne (w : String) (hw : w ∈ reserved) : n ≠ w := by
    rintro rfl
    rw [isReserved, List.contains_iff_mem.mpr hw] at h
    cases h
  simp [keyword?, hne "null" (by decide), hne "yes" (by decide), hne "no" (by decide),
    hne "true" (by decide), hne "false" (by decide)]

lemma accepts_readToken_bareName {n : String} (h : isBareName n = true) (hkey : keyword? n = none)
    (hds : Stops ds) :
    Accepts (Around p (n.toList ++ ds)) (readToken contents) fun t r i =>
      t.value = ident n false ∧ Around (lastOf p n.toList) ds r i := by
  have hpart : ∀ d ∈ ds.head?, isNamePart d = false := fun d hd =>
    (class_of_delimiter (hds d hd)).1
  have hname := accepts_readBareName (p := p) h hpart
  have hword := rejects_readKeyword_of_name (p := p) h hkey hpart
  obtain ⟨c, cs, hn, hc, hcs⟩ := exists_of_isBareName h
  rw [hn, List.cons_append] at hname hword ⊢
  have hclass := class_of_isNamePart (isNamePart_of_isNameStart hc)
  -- an `r` in front of a quote or a hash would open a quoted name
  have hraw : rawOpeningPattern.length? (c :: (cs ++ ds)) = none := by
    by_cases hr : c = 'r'
    · subst hr
      refine length?_rawOpening_eq_none ?_
      cases cs with
      | nil =>
        intro d hd
        have hdelimiter := class_of_delimiter (hds d hd)
        exact ⟨hdelimiter.2.2.2.2, hdelimiter.2.2.2.1⟩
      | cons d cs =>
        intro e he
        cases he
        have hpart := class_of_isNamePart (hcs d List.mem_cons_self)
        constructor
        · rintro rfl
          exact hpart (by simp)
        · rintro rfl
          exact hpart (by simp)
    · exact length?_rawOpening_of_head (by simpa using hr)
  have hne (d : Char)
      (hd : d ∈ ['-', ',', '"', '(', '[', '\x7b', ')', ']', '\x7d', ' ', '\n', '.', '#', '\\']) :
      c ≠ d := by
    rintro rfl
    exact hclass hd
  refine accepts_readToken (accepts_choice_of_rejects hword (accepts_choice_of_rejects
    (rejects_readComma (by simpa using hne ',' (by simp))) (accepts_choice_of_rejects
      (rejects_readNumber (length?_numberPattern_eq_none ?_)) (accepts_choice_of_rejects
        (rejects_readText (by simpa using hne '"' (by simp))) (accepts_choice_of_rejects
          (rejects_readRawName hraw) (accepts_choice_cons hname))))))
  intro d hd
  cases hd
  exact ⟨hne '-' (by simp), not_isDigit_of_isNameStart hc⟩

lemma length?_numberPattern_operator {s : List Char} (hs : ∀ c ∈ s, isOperatorChar c = true)
    (hne : s ≠ []) (hds : ∀ d ∈ ds.head?, d.isDigit = false) :
    numberPattern.length? (s ++ ds) = none := by
  cases s with
  | nil => exact absurd rfl hne
  | cons c s =>
    by_cases hc : c = '-'
    · subst hc
      refine length?_numberPattern_minus ?_
      cases s with
      | nil => exact hds
      | cons d s =>
        intro e he
        cases he
        exact (class_of_operatorChar (hs d (by simp))).2.1
    · refine length?_numberPattern_eq_none ?_
      intro d hd
      cases hd
      exact ⟨hc, (class_of_operatorChar (hs c List.mem_cons_self)).2.1⟩

lemma accepts_readToken_operator {s : String} (hs : ∀ c ∈ s.toList, isOperatorChar c = true)
    (hne : s.toList ≠ []) (hds : ∀ d ∈ ds.head?, isOperatorChar d = false ∧ d.isDigit = false) :
    Accepts (Around p (s.toList ++ ds)) (readToken contents) fun t r i =>
      t.value = operator s ∧ Around (lastOf p s.toList) ds r i := by
  have hnumber := length?_numberPattern_operator hs hne fun d hd => (hds d hd).2
  have hoperator := accepts_readOperator (p := p) hs hne fun d hd => (hds d hd).1
  cases hcons : s.toList with
  | nil => exact absurd hcons hne
  | cons c cs =>
    rw [hcons, List.cons_append] at hnumber hoperator
    rw [hcons] at hs
    have hclass := class_of_operatorChar (hs c List.mem_cons_self)
    have hne (d : Char) (hd : d ∈ [',', '"', 'r']) : c ≠ d := by
      rintro rfl
      exact hclass.2.2 hd
    have hstart : ∀ d ∈ (c :: (cs ++ ds)).head?, isNameStart d = false := by
      intro d hd
      cases hd
      exact hclass.1
    exact accepts_readToken (accepts_choice_of_rejects (rejects_readKeyword hstart)
      (accepts_choice_of_rejects (rejects_readComma (by simpa using hne ',' (by simp)))
      (accepts_choice_of_rejects (rejects_readNumber hnumber)
      (accepts_choice_of_rejects (rejects_readText (by simpa using hne '"' (by simp)))
      (accepts_choice_of_rejects (rejects_readRawName (length?_rawOpening_of_head
        (by simpa using hne 'r' (by simp))))
      (accepts_choice_of_rejects (rejects_readBareName hstart)
      (accepts_choice_cons hoperator)))))))

/-- What begins with none of these characters is neither a word, a number, a text nor an
operator. -/
structure Plain (c : Char) : Prop where
  isNameStart_eq : isNameStart c = false
  isDigit_eq : c.isDigit = false
  isOperatorChar_eq : isOperatorChar c = false
  not_mem : c ∉ ['-', ',', '"', 'r']

lemma accepts_readToken_of_plain {W : Token → View Char} (hplain : ∀ c ∈ cs.head?, Plain c)
    (h : Accepts (Around p cs) (choice [readGroup contents, readBlank]) W) :
    Accepts (Around p cs) (readToken contents) fun t => W t.value := by
  have hne (d : Char) (hd : d ∈ ['-', ',', '"', 'r']) : cs.head? ≠ some d := fun hc =>
    (hplain d hc).not_mem hd
  exact accepts_readToken
    (accepts_choice_of_rejects (rejects_readKeyword fun c hc => (hplain c hc).isNameStart_eq)
    (accepts_choice_of_rejects (rejects_readComma (hne ',' (by simp)))
    (accepts_choice_of_rejects (rejects_readNumber (length?_numberPattern_eq_none fun c hc =>
      ⟨fun heq => (hplain c hc).not_mem (by simp [heq]), (hplain c hc).isDigit_eq⟩))
    (accepts_choice_of_rejects (rejects_readText (hne '"' (by simp)))
    (accepts_choice_of_rejects (rejects_readRawName (length?_rawOpening_of_head (hne 'r' (by simp))))
    (accepts_choice_of_rejects (rejects_readBareName fun c hc => (hplain c hc).isNameStart_eq)
    (accepts_choice_of_rejects (rejects_readOperator fun c hc => (hplain c hc).isOperatorChar_eq)
      h)))))))

/-- At the end of a group there is no further token. -/
lemma rejects_readToken (h : Shuts cs) : Rejects (Around p cs) (readToken contents) := by
  have hclass (c : Char) (hc : c ∈ cs.head?) := class_of_closer (h c hc)
  have hne (d : Char) (hd : d ∈ ['-', ',', '"', 'r', '(', '[', '\x7b']) : cs.head? ≠ some d :=
    fun hc => (hclass d hc).2.2.2.2 hd
  refine rejects_get fun _ _ => rejects_bind_left (rejects_choice fun m hm => ?_)
  simp only [List.mem_cons, List.not_mem_nil, or_false] at hm
  rcases hm with rfl | rfl | rfl | rfl | rfl | rfl | rfl | rfl | rfl
  · exact rejects_readKeyword fun c hc => (hclass c hc).1
  · exact rejects_readComma (hne ',' (by simp))
  · refine rejects_readNumber (length?_numberPattern_eq_none fun c hc => ?_)
    refine ⟨?_, (hclass c hc).2.2.2.1⟩
    rintro rfl
    exact hne '-' (by simp) hc
  · exact rejects_readText (hne '"' (by simp))
  · exact rejects_readRawName (length?_rawOpening_of_head (hne 'r' (by simp)))
  · exact rejects_readBareName fun c hc => (hclass c hc).1
  · exact rejects_readOperator fun c hc => (hclass c hc).2.1
  · refine rejects_readGroup contents fun c hc hmem => ?_
    simp only [List.mem_cons, List.not_mem_nil, or_false] at hmem
    rcases hmem with rfl | rfl | rfl
    · exact hne '(' (by simp) hc
    · exact hne '[' (by simp) hc
    · exact hne '\x7b' (by simp) hc
  · exact rejects_readBlank fun c hc => (hclass c hc).2.2.1

lemma accepts_readToken_blank (hcs : ∀ c ∈ cs, isBlank c = true) (hne : cs ≠ [])
    (hds : ∀ d ∈ ds.head?, isBlank d = false) :
    Accepts (Around p (cs ++ ds)) (readToken contents) fun t r i =>
      t.value = ofBlank cs ∧ Around (lastOf p cs) ds r i := by
  have hhead : ∀ c ∈ (cs ++ ds).head?, Plain c ∧ c ∉ ['(', '[', '\x7b'] := by
    cases cs with
    | nil => exact absurd rfl hne
    | cons c cs =>
      rintro d ⟨⟩
      have hblank := hcs c List.mem_cons_self
      obtain ⟨-, hoperator, hdigit, hother⟩ := class_of_blank hblank
      simp only [List.mem_cons, List.not_mem_nil, or_false, not_or] at hother ⊢
      exact ⟨⟨not_isNameStart_of_isBlank hblank, hdigit, hoperator, by simp [hother]⟩, by simp [hother]⟩
  exact accepts_readToken_of_plain (fun c hc => (hhead c hc).1) (accepts_choice_of_rejects
    (rejects_readGroup contents fun c hc => (hhead c hc).2)
    (accepts_choice_cons (accepts_readBlank hcs hne hds)))

/-- A group is read from its delimiters and from what is read between them. -/
lemma accepts_readToken_group {kind : GroupKind} {o q : Char} {ts : List Token}
    (hkind : kind.delimiters = some (o, q))
    (h : Accepts (Around (some o) (cs ++ q :: ds)) (contents none) fun tokens r i =>
      bares tokens = ts ∧ Around (lastOf (some o) cs) (q :: ds) r i) :
    Accepts (Around p (o :: cs ++ q :: ds)) (readToken contents) fun t r i =>
      t.value.bare = grouped kind ts ∧ Around (some q) ds r i := by
  have hplain : Plain o := by
    cases kind <;> cases hkind <;>
      exact ⟨by decide, by decide, by decide, by decide⟩
  have hfind : [GroupKind.parens, .brackets, .braces].find? (·.delimiters.any (·.1 == o)) =
      some kind := by
    cases kind <;> cases hkind <;> decide
  refine accepts_readToken_of_plain (W := fun t r i => t.bare = grouped kind ts ∧
    Around (some q) ds r i) (fun c hc => by cases hc; exact hplain) (accepts_choice_cons ?_)
  refine accepts_bind accepts_peek fun item => accepts_and fun hitem => ?_
  dsimp only
  rw [hitem, hfind]
  dsimp only
  rw [hkind]
  refine accepts_bind (W := fun tokens r i => bares tokens = ts ∧ Around (some q) ds r i) ?_
    fun tokens => accepts_and fun htokens => accepts_pure fun r i hr => ⟨by rw [bare, htokens], hr⟩
  refine accepts_bind (accepts_exactly p [o] (cs ++ q :: ds)) fun _ =>
    accepts_bind h fun tokens => accepts_and fun htokens => ?_
  exact accepts_bind (accepts_exactly _ [q] ds) fun _ => accepts_pure fun r i hr => ⟨htokens, hr⟩

end Contents

end Formulary.Token
