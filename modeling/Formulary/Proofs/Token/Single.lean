/-
# Accepting single tokens

Each reader of a kind of token rejects what begins with a character that its kind cannot begin
with, and accepts the canonical spelling of a token of its kind.
-/
import Formulary.Layout.Literal
import Formulary.Proofs.Number.Written
import Formulary.Proofs.Token.Classes
import Formulary.Proofs.Token.Spelling

namespace Formulary.Token

open Text Word Parsing

variable {p : Option Char} {c : Char} {cs ds ds' : List Char}

/-! ## Rejection -/

lemma rejects_readKeyword (h : ∀ c ∈ cs.head?, isNameStart c = false) :
    Rejects (Around p cs) readKeyword :=
  rejects_get fun _ _ => rejects_bind_left (rejects_matching (length?_namePattern_eq_none h))

lemma rejects_exactly (h : ¬ds <+: cs) : Rejects (Around p cs) (exactly ds) := rejects_literal h

lemma accepts_exactly (p : Option Char) (cs ds : List Char) :
    Accepts (Around p (cs ++ ds)) (exactly cs) fun _ => Around (lastOf p cs) ds :=
  accepts_literal _ p cs ds

lemma rejects_readComma (h : cs.head? ≠ some ',') : Rejects (Around p cs) readComma :=
  rejects_bind_left (rejects_exactly (not_prefix_of_head h))

lemma rejects_readNumber (h : numberPattern.length? cs = none) :
    Rejects (Around p cs) readNumber := by
  refine rejects_get fun c _ => ?_
  split
  · exact rejects_failHere _
  · exact rejects_bind_left (rejects_matching h)

lemma rejects_readText (h : cs.head? ≠ some '"') : Rejects (Around p cs) readText :=
  rejects_bind_left (rejects_bind_left (rejects_exactly (not_prefix_of_head h)))

lemma rejects_readRawName (h : rawOpeningPattern.length? cs = none) :
    Rejects (Around p cs) readRawName :=
  rejects_bind_left (rejects_matching h)

lemma rejects_readBareName (h : ∀ c ∈ cs.head?, isNameStart c = false) :
    Rejects (Around p cs) readBareName :=
  rejects_bind_left (rejects_matching (length?_namePattern_eq_none h))

lemma length?_oneOrMore_eq_none {source : String} {q : Char → Bool}
    (h : ∀ c ∈ cs.head?, q c = false) : (Pattern.oneOrMore source q).length? cs = none := by
  have hlen : Pattern.runLength q ([] ++ cs) = 0 := runLength_append (fun _ hc => by cases hc) h
  rw [List.nil_append] at hlen
  simp [Pattern.oneOrMore, hlen]

lemma length?_oneOrMore {source : String} {q : Char → Bool} (hcs : ∀ c ∈ cs, q c = true)
    (hne : cs ≠ []) (hds : ∀ d ∈ ds.head?, q d = false) :
    (Pattern.oneOrMore source q).length? (cs ++ ds) = some cs.length := by
  simp [Pattern.oneOrMore, runLength_append hcs hds, hne]

lemma rejects_readOperator (h : ∀ c ∈ cs.head?, isOperatorChar c = false) :
    Rejects (Around p cs) readOperator :=
  rejects_bind_left (rejects_matching (length?_oneOrMore_eq_none h))

lemma rejects_readBlank (h : ∀ c ∈ cs.head?, isBlank c = false) :
    Rejects (Around p cs) readBlank :=
  rejects_bind_left (rejects_matching (length?_oneOrMore_eq_none h))

lemma rejects_readGroup (contents : Option Nat → Parser Char (List (Located Token)))
    (h : ∀ c ∈ cs.head?, c ∉ ['(', '[', '\x7b']) : Rejects (Around p cs) (readGroup contents) := by
  cases cs with
  | nil => exact rejects_bind_left rejects_peek_nil
  | cons c cs =>
    refine rejects_bind accepts_peek fun item => rejects_and fun hitem => ?_
    have hc := h c rfl
    have hkind : [GroupKind.parens, .brackets, .braces].find?
        (·.delimiters.any (·.1 == item.value)) = none := by
      rw [hitem]
      simp only [List.mem_cons, List.not_mem_nil, or_false, not_or] at hc
      simp [GroupKind.delimiters, Ne.symm hc.1, Ne.symm hc.2.1, Ne.symm hc.2.2]
    dsimp only
    rw [hkind]
    exact rejects_expected _

/-! ## Names and keywords -/

lemma accepts_matching_name {n : String} (h : isBareName n = true)
    (hds : ∀ d ∈ ds.head?, isNamePart d = false) :
    Accepts (Around p (n.toList ++ ds)) (matching namePattern) fun as r i =>
      as = n.toList ∧ Around (lastOf p n.toList) ds r i := by
  obtain ⟨c, cs, hn, -, -⟩ := exists_of_isBareName h
  exact accepts_matching (length?_namePattern h hds) (by simp [hn])

lemma accepts_readBareName {n : String} (h : isBareName n = true)
    (hds : ∀ d ∈ ds.head?, isNamePart d = false) :
    Accepts (Around p (n.toList ++ ds)) readBareName fun t r i =>
      t = ident n false ∧ Around (lastOf p n.toList) ds r i := by
  refine accepts_bind (accepts_matching_name h hds) fun as => accepts_and fun has => ?_
  exact accepts_pure fun r i hr => ⟨by rw [has, String.ofList_toList], hr⟩

lemma rejects_readKeyword_of_name {n : String} (h : isBareName n = true)
    (hkey : keyword? n = none) (hds : ∀ d ∈ ds.head?, isNamePart d = false) :
    Rejects (Around p (n.toList ++ ds)) readKeyword := by
  refine rejects_get fun c _ => rejects_bind (accepts_matching_name h hds) fun as =>
    rejects_and fun has => ?_
  rw [has, String.ofList_toList, hkey]
  exact rejects_throw rfl

/-- The token of a keyword. -/
def ofKeyword : Keyword → Token
  | .null => null
  | .bool value => bool value

lemma accepts_readKeyword {w : String} {k : Keyword} (h : isBareName w = true)
    (hkey : keyword? w = some k) (hds : ∀ d ∈ ds.head?, isNamePart d = false) :
    Accepts (Around p (w.toList ++ ds)) readKeyword fun t r i =>
      t = ofKeyword k ∧ Around (lastOf p w.toList) ds r i := by
  refine accepts_get fun c _ => accepts_bind (accepts_matching_name h hds) fun as =>
    accepts_and fun has => ?_
  rw [has, String.ofList_toList, hkey]
  cases k <;> exact accepts_pure fun r i hr => ⟨rfl, hr⟩

/-! ## Commas, operators and white space -/

lemma accepts_readComma : Accepts (Around p (',' :: ds)) readComma fun t r i =>
    t = comma ∧ Around (some ',') ds r i :=
  accepts_bind (accepts_exactly p [','] ds) fun _ => accepts_pure fun _ _ hr => ⟨rfl, hr⟩

lemma accepts_readOperator {s : String} (hs : ∀ c ∈ s.toList, isOperatorChar c = true)
    (hne : s.toList ≠ []) (hds : ∀ d ∈ ds.head?, isOperatorChar d = false) :
    Accepts (Around p (s.toList ++ ds)) readOperator fun t r i =>
      t = operator s ∧ Around (lastOf p s.toList) ds r i := by
  refine accepts_bind (accepts_matching (length?_oneOrMore hs hne hds) hne) fun as =>
    accepts_and fun has => ?_
  exact accepts_pure fun r i hr => ⟨by rw [has, String.ofList_toList], hr⟩

/-- The token of a stretch of white space. -/
def ofBlank (cs : List Char) : Token := if cs.contains '\n' then lineBreak else space

lemma accepts_readBlank (hcs : ∀ c ∈ cs, isBlank c = true) (hne : cs ≠ [])
    (hds : ∀ d ∈ ds.head?, isBlank d = false) :
    Accepts (Around p (cs ++ ds)) readBlank fun t r i =>
      t = ofBlank cs ∧ Around (lastOf p cs) ds r i := by
  refine accepts_bind (accepts_matching (length?_oneOrMore hcs hne hds) hne) fun as =>
    accepts_and fun has => ?_
  exact accepts_pure fun r i hr => ⟨by rw [has]; rfl, hr⟩

/-! ## Numbers -/

/-- The token of a numeral. -/
def ofNumeral (n : Numeral) : Token :=
  number (String.ofList (n.sign ++ n.whole))
    (if n.fraction = [] then none else some (String.ofList n.fraction))

lemma unsignedLength?_numeral (n : Numeral) (hds : ∀ d ∈ ds.head?, d.isDigit = false ∧ d ≠ '.') :
    unsignedLength? (n.whole ++ (n.tail ++ ds)) = some (n.whole ++ n.tail).length := by
  have hwhole : ∀ c ∈ n.whole, c.isDigit = true := fun c hc =>
    n.isDigit_of_mem c (List.mem_append_left _ hc)
  have hfraction : ∀ c ∈ n.fraction, c.isDigit = true := fun c hc =>
    n.isDigit_of_mem c (List.mem_append_right _ hc)
  have htail : ∀ d ∈ (n.tail ++ ds).head?, d.isDigit = false := by
    unfold Numeral.tail
    split
    · exact fun d hd => (hds d hd).1
    · intro d hd
      cases hd
      rfl
  have hne : n.whole.length ≠ 0 := fun h => n.whole_ne_nil (List.length_eq_zero_iff.mp h)
  simp only [unsignedLength?, runLength_append hwhole htail, if_neg hne, List.drop_left]
  -- without a fraction the number ends where its whole part does
  by_cases hnil : n.fraction = []
  · simp only [Numeral.tail, if_pos hnil, List.nil_append, List.append_nil]
    cases ds with
    | nil => rfl
    | cons d ds =>
      have hd : d ≠ '.' := (hds d rfl).2
      split
      · rename_i heq
        exact absurd (List.cons.inj heq).1 hd
      · rfl
  · have hlen := runLength_append hfraction fun d hd => (hds d hd).1
    simp only [Numeral.tail, if_neg hnil, List.cons_append, hlen, List.length_append,
      List.length_cons]
    rw [if_neg fun h => hnil (List.length_eq_zero_iff.mp h)]
    congr 1
    omega

lemma length?_numeral (n : Numeral) (hds : ∀ d ∈ ds.head?, d.isDigit = false ∧ d ≠ '.') :
    numberPattern.length? (n.text ++ ds) = some n.text.length := by
  have hlen := unsignedLength?_numeral n hds
  unfold Numeral.text Numeral.sign
  cases n.negative with
  | true =>
    simp only [numberPattern, if_true, List.nil_append, List.cons_append, List.append_assoc, hlen,
      Option.map_some, List.length_cons]
  | false =>
    simp only [Bool.false_eq_true, if_false, List.nil_append, List.append_assoc]
    rw [← hlen]
    cases hwhole : n.whole with
    | nil => exact absurd hwhole n.whole_ne_nil
    | cons d whole =>
      have hd := n.isDigit_of_mem d (by simp [hwhole])
      unfold numberPattern
      dsimp only
      split
      · rename_i heq
        rw [List.cons_append, List.cons.injEq] at heq
        rw [heq.1] at hd
        exact absurd hd (by decide)
      · rfl

lemma ofNumberText_numeral (n : Numeral) : ofNumberText n.text = ofNumeral n := by
  have hfront : ∀ c ∈ n.sign ++ n.whole, (c != '.') = true := by
    intro c hc
    rw [bne_iff_ne]
    rintro rfl
    rcases List.mem_append.mp hc with hc | hc
    · unfold Numeral.sign at hc
      split at hc
      · simp at hc
      · cases hc
    · exact absurd (n.isDigit_of_mem _ (List.mem_append_left _ hc)) (by decide)
  unfold ofNumberText Numeral.text ofNumeral
  rw [List.takeWhile_append_of_pos hfront, List.dropWhile_append_of_pos hfront]
  unfold Numeral.tail
  split <;> simp

/-- In front of `ds` the numeral is at its end: no longer number is read there, and no character of
a name follows. -/
structure EndsNumber (n : Numeral) (ds : List Char) : Prop where
  longest : numberPattern.length? (n.text ++ ds) = some n.text.length
  loose : ∀ d ∈ ds.head?, isNamePart d = false

lemma endsNumber_of_head {n : Numeral} (hds : ∀ d ∈ ds.head?, isNamePart d = false ∧ d ≠ '.') :
    EndsNumber n ds := by
  refine ⟨length?_numeral n fun d hd => ⟨?_, (hds d hd).2⟩, fun d hd => (hds d hd).1⟩
  cases hc : d.isDigit with
  | false => rfl
  | true =>
    have hpart := (hds d hd).1
    rw [(class_of_digit hc).2.1] at hpart
    cases hpart

/-- A numeral is read as a number, unless it begins with a minus that is glued to an operand. -/
lemma accepts_readNumber (n : Numeral)
    (hp : n.negative = true → ∀ c ∈ p, endsOperand c = false) (hds : EndsNumber n ds) :
    Accepts (Around p (n.text ++ ds)) readNumber fun t r i =>
      t = ofNumeral n ∧ Around (lastOf p n.text) ds r i := by
  have hne : n.text ≠ [] := by simp [Numeral.text, n.whole_ne_nil]
  refine accepts_get fun cur hcur => ?_
  -- a minus is a sign unless an operand ends in front of it
  have hglued : (cur.next? == some '-' && cur.previous.any (endsOperand ·.value)) = false := by
    rw [hcur.next?]
    cases hneg : n.negative with
    | true =>
      have hprev : cur.previous.any (endsOperand ·.value) = false := by
        have hmap := hcur.1.2
        cases hitem : cur.previous with
        | none => rfl
        | some item =>
          rw [hitem] at hmap
          exact hp hneg item.value hmap.symm
      rw [hprev, Bool.and_false]
    | false =>
      cases hwhole : n.whole with
      | nil => exact absurd hwhole n.whole_ne_nil
      | cons d whole =>
        have hd : d ≠ '-' := by
          rintro rfl
          exact absurd (n.isDigit_of_mem '-' (by simp [hwhole])) (by decide)
        simp [Numeral.text, Numeral.sign, hneg, hwhole, hd]
  rw [if_neg (by rw [hglued]; exact Bool.false_ne_true)]
  refine accepts_bind (accepts_matching hds.longest hne) fun as =>
    accepts_and fun has => accepts_get fun cur' hcur' => ?_
  have hend : cur'.next?.any isNamePart = false := by
    rw [hcur'.next?]
    cases hhead : ds.head? with
    | none => rfl
    | some d => exact hds.loose d hhead
  rw [if_neg (by rw [hend]; exact Bool.false_ne_true)]
  exact accepts_pure fun r i hr => ⟨by rw [has, ofNumberText_numeral], hr⟩

/-! ## Texts -/

lemma accepts_readTextChar_plain (hquote : c ≠ '"') (hbackslash : c ≠ '\\') :
    Accepts (Around p (c :: ds)) readTextChar fun d r i => d = c ∧ Around (some c) ds r i := by
  refine accepts_choice_of_rejects (rejects_bind_left (rejects_exactly
    (not_prefix_of_head (by simp [hbackslash])))) (accepts_choice_cons (accepts_map ?_))
  exact accepts_satisfying (by simp [hquote, hbackslash])

lemma accepts_readTextChar_escaped (c : Char) :
    Accepts (Around p ('\\' :: c :: ds)) readTextChar fun d r i => d = c ∧ Around (some c) ds r i := by
  refine accepts_choice_cons (accepts_bind (accepts_exactly p ['\\'] (c :: ds)) fun _ => ?_)
  refine accepts_bind accepts_next fun item => accepts_and fun hitem => ?_
  exact accepts_pure fun r i hr => ⟨hitem, hr⟩

lemma rejects_readTextChar : Rejects (Around p ('"' :: ds)) readTextChar := by
  refine rejects_choice (forall_mem_pair ?_ ?_)
  · exact rejects_bind_left (rejects_exactly (not_prefix_of_head (by simp)))
  · exact rejects_map (rejects_satisfying (by simp))

/-- A character in front of further ones. -/
lemma accepts_many_readTextChar_cons (es : List Char) (hes : es ≠ [])
    (hfirst : Accepts (Around p (es ++ ds)) readTextChar fun d r i => d = c ∧ Around (some c) ds r i)
    (hmore : Accepts (Around (some c) ds) (many readTextChar) fun as r i =>
      as = cs ∧ Around (lastOf (some c) cs) ('"' :: ds') r i) :
    Accepts (Around p (es ++ ds)) (many readTextChar) fun as r i =>
      as = c :: cs ∧ Around (lastOf p (c :: cs)) ('"' :: ds') r i := by
  have hless : ∀ (d : Char) r i r' i', Around p (es ++ ds) r i → d = c ∧ Around (some c) ds r' i' →
      r'.length < r.length := fun d r i r' i' h h' => length_lt_of_around hes h h'.2
  have hrest (d : Char) : Accepts (fun r i => d = c ∧ Around (some c) ds r i) (many readTextChar)
      fun as r i => (d = c ∧ as = cs) ∧ Around (lastOf (some c) cs) ('"' :: ds') r i :=
    accepts_and fun hd => hmore.mono fun as r i h => ⟨⟨hd, h.1⟩, h.2⟩
  refine (accepts_many_cons hfirst hless hrest).mono ?_
  rintro as r i ⟨d, bs, rfl, ⟨rfl, rfl⟩, hr⟩
  exact ⟨rfl, hr⟩

lemma accepts_many_readTextChar {es : List Char} (h : Unescapes es cs) (p : Option Char) :
    Accepts (Around p (es ++ '"' :: ds)) (many readTextChar) fun as r i =>
      as = cs ∧ Around (lastOf p cs) ('"' :: ds) r i := by
  induction h generalizing p with
  | nil => exact accepts_many_nil rejects_readTextChar
  | @plain c es _ hquote hbackslash _ ih =>
    exact accepts_many_readTextChar_cons [c] (by simp)
      (accepts_readTextChar_plain hquote hbackslash) (ih (some c))
  | @escaped c es _ _ ih =>
    exact accepts_many_readTextChar_cons ['\\', c] (by simp)
      (accepts_readTextChar_escaped c) (ih (some c))

lemma accepts_readText {es : List Char} {v : String} (h : Unescapes es v.toList) :
    Accepts (Around p ('"' :: es ++ '"' :: ds)) readText fun t r i =>
      t = text v ∧ Around (some '"') ds r i := by
  refine accepts_bind (W := fun as r i => as = v.toList ∧ Around (some '"') ds r i) ?_ fun as =>
    accepts_and fun has => accepts_pure fun r i hr => ⟨by rw [has, String.ofList_toList], hr⟩
  refine accepts_bind (accepts_exactly p ['"'] _) fun _ =>
    accepts_bind (accepts_many_readTextChar h _) fun as => accepts_and fun has => ?_
  exact accepts_bind (accepts_exactly _ ['"'] ds) fun _ => accepts_pure fun r i hr => ⟨has, hr⟩

/-- The canonical spelling of a text. -/
lemma unescapes_doubleBackslashes (h : '"' ∉ cs) : Unescapes (Layout.doubleBackslashes cs) cs := by
  induction cs with
  | nil => exact .nil
  | cons c cs ih =>
    rw [List.mem_cons, not_or] at h
    have hsplit : Layout.doubleBackslashes (c :: cs) =
        (if c = '\\' then ['\\', '\\'] else [c]) ++ Layout.doubleBackslashes cs := by
      simp [Layout.doubleBackslashes]
    rw [hsplit]
    split
    · rename_i heq
      rw [heq]
      exact .escaped (ih h.2)
    · rename_i hne
      exact .plain (Ne.symm h.1) hne (ih h.2)

/-! ## Quoted names -/

/-- A row of number signs. -/
def hashes (k : Nat) : List Char := List.replicate k '#'

/-- The characters of a quoted name with `k` number signs on both sides. -/
def quotedName (k : Nat) (n : List Char) : List Char :=
  'r' :: hashes k ++ '"' :: n ++ '"' :: hashes k

lemma mem_hashes {k : Nat} (h : c ∈ hashes k) : (c == '#') = true := by
  rw [List.eq_of_mem_replicate h]
  rfl

/-- Number signs that a text begins with are among those it is led by. -/
lemma le_leadingHashes {k : Nat} (h : hashes k <+: cs) : k ≤ Layout.leadingHashes cs := by
  obtain ⟨ds, rfl⟩ := h
  rw [Layout.leadingHashes, List.takeWhile_append_of_pos fun c hc => mem_hashes hc,
    List.length_append, hashes, List.length_replicate]
  exact Nat.le_add_right _ _

/-- A quote ends the number signs before it. -/
lemma leadingHashes_append (cs ds : List Char) :
    Layout.leadingHashes (cs ++ '"' :: ds) = Layout.leadingHashes cs := by
  unfold Layout.leadingHashes
  induction cs with
  | nil => rfl
  | cons c cs ih =>
    rw [List.cons_append, List.takeWhile_cons, List.takeWhile_cons]
    split
    · rw [List.length_cons, List.length_cons, ih]
    · rfl

/-- Within the name there is no quote with enough number signs to close it. -/
lemma not_prefix_closing {k : Nat} (ds : List Char) (hk : Layout.closingHashes (c :: cs) ≤ k) :
    ¬('"' :: hashes k) <+: (c :: cs ++ '"' :: ds) := by
  intro hpre
  obtain ⟨es, hes⟩ := hpre
  rw [List.cons_append, List.cons_append, List.cons.injEq] at hes
  have hquote : c = '"' := hes.1.symm
  have hlead := le_leadingHashes ⟨es, hes.2⟩
  rw [leadingHashes_append] at hlead
  rw [Layout.closingHashes, if_pos hquote] at hk
  have hmax := Nat.le_trans (Nat.le_max_left _ _) hk
  omega

/-- Within the name there is no quote with `k` number signs. -/
def Unclosed (k : Nat) (n : List Char) : Prop :=
  ∀ s, s <:+ n → s ≠ [] → ¬('"' :: hashes k) <+: s ++ '"' :: hashes k

lemma closingHashes_le_of_suffix {s n : List Char} (h : s <:+ n) :
    Layout.closingHashes s ≤ Layout.closingHashes n := by
  obtain ⟨cs, rfl⟩ := h
  induction cs with
  | nil => exact Nat.le_refl _
  | cons c cs ih =>
    refine Nat.le_trans ih ?_
    rw [List.cons_append, Layout.closingHashes]
    split
    · exact Nat.le_max_right _ _
    · exact Nat.le_refl _

lemma unclosed_of_closingHashes_le {k : Nat} {n : List Char} (hk : Layout.closingHashes n ≤ k) :
    Unclosed k n := by
  intro s hs hne
  obtain ⟨c, cs, rfl⟩ := List.exists_cons_of_ne_nil hne
  exact not_prefix_closing (hashes k) (Nat.le_trans (closingHashes_le_of_suffix hs) hk)

/-- What comes after the closing quote does not matter. -/
lemma Unclosed.not_prefix {k : Nat} {n s : List Char} (h : Unclosed k n) (hs : s <:+ n)
    (hne : s ≠ []) (ds : List Char) : ¬('"' :: hashes k) <+: s ++ '"' :: hashes k ++ ds := fun hpre =>
  h s hs hne (List.prefix_of_prefix_length_le hpre (List.prefix_append _ _) (by simp))

lemma accepts_takeUntil_closing {k : Nat} (n : List Char) (h : Unclosed k n) (p : Option Char) :
    Accepts (Around p (n ++ ('"' :: hashes k) ++ ds)) (takeUntil (exactly ('"' :: hashes k)))
      fun as r i => as.map Located.value = n ∧ Around (lastOf p n) (('"' :: hashes k) ++ ds) r i := by
  induction n generalizing p with
  | nil =>
    intro cur hcur
    obtain ⟨a, cur', hrun, -⟩ := accepts_exactly p ('"' :: hashes k) ds hcur.fork
    exact ⟨[], cur, takeUntil_of_ok hrun, hcur.mono fun r i hr => ⟨rfl, hr⟩⟩
  | cons c n ih =>
    intro cur hcur
    have hnot := rejects_exactly (p := p) (h.not_prefix (List.suffix_refl _) (by simp) ds)
    obtain ⟨f, cur₁, hrun, hf⟩ := hnot hcur.fork
    obtain ⟨item, rest, hcons, hitem, htail⟩ := List.map_eq_cons_iff.mp hcur.1.1
    have hpass : (cur.pass item rest).Meets (Around (some c) (n ++ ('"' :: hashes k) ++ ds)) := by
      exact Cursor.Meets.pass ⟨htail, by rw [Option.map_some, hitem]⟩
    obtain ⟨as, cur₂, hmore, hcur₂⟩ :=
      ih (fun s hs => h s (hs.trans (List.suffix_cons c n))) (some c) hpass
    refine ⟨item :: as, cur₂, ?_, hcur₂.mono fun r i hr => ⟨?_, hr.2⟩⟩
    · rw [takeUntil_of_cons hrun hf hcons, hmore]
      rfl
    · rw [List.map_cons, hitem, hr.1]

lemma length?_rawOpening (k : Nat) (ds : List Char) :
    rawOpeningPattern.length? (('r' :: hashes k ++ ['"']) ++ ds) =
      some ('r' :: hashes k ++ ['"']).length := by
  have hlen : Pattern.runLength (· == '#') (hashes k ++ ('"' :: ds)) = (hashes k).length :=
    runLength_append (fun c hc => mem_hashes hc) (by simp)
  simp only [rawOpeningPattern, List.cons_append, List.append_assoc, List.nil_append, hlen,
    List.drop_left]
  simp

lemma accepts_readRawName {k : Nat} {n : String} (h : Unclosed k n.toList) :
    Accepts (Around p (quotedName k n.toList ++ ds)) readRawName fun t r i =>
      t = ident n true ∧ Around (lastOf p (quotedName k n.toList)) ds r i := by
  have hsplit : quotedName k n.toList ++ ds =
      ('r' :: hashes k ++ ['"']) ++ (n.toList ++ ('"' :: hashes k) ++ ds) := by
    simp [quotedName]
  have hlast : lastOf p (quotedName k n.toList) =
      lastOf (lastOf (lastOf p ('r' :: hashes k ++ ['"'])) n.toList) ('"' :: hashes k) := by
    simp [quotedName]
  rw [hsplit, hlast]
  refine accepts_bind (accepts_matching (length?_rawOpening k _) (by simp)) fun opening =>
    accepts_and fun hopening => ?_
  have hclosing : '"' :: List.replicate (opening.length - 2) '#' = '"' :: hashes k := by
    rw [hopening]
    simp [hashes]
  dsimp only
  rw [hclosing]
  refine accepts_bind (accepts_takeUntil_closing n.toList h _) fun as => accepts_and fun has => ?_
  refine accepts_bind (accepts_exactly _ ('"' :: hashes k) ds) fun _ => ?_
  exact accepts_pure fun r i hr => ⟨by rw [has, String.ofList_toList], hr⟩

/-- What begins with the letter r is no quoted name if a name character or a delimiter
follows. -/
lemma length?_rawOpening_eq_none (h : ∀ c ∈ cs.head?, c ≠ '#' ∧ c ≠ '"') :
    rawOpeningPattern.length? ('r' :: cs) = none := by
  have hlen : Pattern.runLength (· == '#') ([] ++ cs) = 0 :=
    runLength_append (fun _ hc => by cases hc) fun c hc => beq_false_of_ne (h c hc).1
  rw [List.nil_append] at hlen
  simp only [rawOpeningPattern, hlen, List.drop_zero]
  split
  · exact absurd rfl (h '"' rfl).2
  · rfl

lemma length?_rawOpening_of_head (h : cs.head? ≠ some 'r') : rawOpeningPattern.length? cs = none := by
  unfold rawOpeningPattern
  dsimp only
  split
  · exact absurd rfl h
  · rfl

end Formulary.Token
