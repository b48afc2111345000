/-
# Words and operators are never divided

A word or a number goes on as far as name characters go, an operator as far as operator characters
go, and white space as far as it goes.  A word does not begin behind a name character either: of
the tokens only words and numbers end with one, and no name character follows them.  Where a row of
tokens begins, at the beginning of the text, behind a bracket or behind white space, there is none.
A word that stands for a value is never read as a name.
-/
import Formulary.Proofs.Token.Minus

namespace Formulary.Token

open Text Word Parsing

variable {q : Option Char} {p : Position} {E : Option Nat} {tokens ts : List (Located Token)}
  {text cs ds es : List Char} {t : Located Token}

/-- A bare name, or a word that stands for a value. -/
def isBareWord : Token → Bool
  | .ident _ raw => !raw
  | .null | .bool _ => true
  | .number .. | .operator _ | .text _ | .comma | .space | .lineBreak | .group .. => false

/-- A number. -/
def isNumber : Token → Bool
  | .number .. => true
  | .ident .. | .null | .bool _ | .operator _ | .text _ | .comma | .space | .lineBreak
  | .group .. => false

/-- The token, read from `cs` behind the character `q` and in front of `ds`, is not a part of
something longer of its kind. -/
structure Undivided (q : Option Char) (t : Token) (cs ds : List Char) : Prop where
  /-- No name character goes on with a word or a number. -/
  followed : t.isBareWord = true ∨ t.isNumber = true → ∀ d ∈ ds.head?, isNamePart d = false
  /-- No name character is in front of a word. -/
  preceded : t.isBareWord = true → ∀ c ∈ q, isNamePart c = false
  /-- No operator character goes on with an operator. -/
  operator : ∀ s, t = .operator s → ∀ d ∈ ds.head?, isOperatorChar d = false
  /-- No white space goes on with white space, unless that is a line break without extent. -/
  blank : t = .space ∨ t = .lineBreak ∧ cs ≠ [] → ∀ d ∈ ds.head?, isBlank d = false
  /-- The absent value is read from its word, and that word gives nothing else. -/
  null : t = .null ↔ cs = "null".toList
  /-- So are the truth values from the two words that each of them has. -/
  yes : t = .bool true ↔ cs = "yes".toList ∨ cs = "true".toList
  no : t = .bool false ↔ cs = "no".toList ∨ cs = "false".toList
  /-- A bare name is none of these words. -/
  name : ∀ n, t = .ident n false → n ∉ ["null", "yes", "no", "true", "false"]

/-- Not both sides of the border are name characters. -/
def Parted (q : Option Char) (text : List Char) : Prop :=
  ∀ c ∈ q, isNamePart c = true → ∀ d ∈ text.head?, isNamePart d = false

/-! ## Borders -/

lemma parted_of_left (h : ∀ c ∈ q, isNamePart c = false) : Parted q text := by
  intro c hc hpart
  rw [h c hc] at hpart
  cases hpart

lemma parted_of_right (h : ∀ d ∈ text.head?, isNamePart d = false) : Parted q text :=
  fun _ _ _ => h

/-- A border behind characters, none of which is a name character. -/
lemma parted_of_mem (hne : cs ≠ []) (h : ∀ c ∈ cs, isNamePart c = false) :
    Parted (lastOf q cs) text := by
  refine parted_of_left fun c hc => h c ?_
  rw [lastOf_eq, List.getLast?_eq_getLast_of_ne_nil hne, Option.some_or, Option.mem_some_iff] at hc
  exact hc ▸ List.getLast_mem hne

lemma not_isNamePart_of_isOperatorChar {c : Char} (h : isOperatorChar c = true) :
    isNamePart c = false := by
  have hall : ∀ c ∈ operatorChars, isNamePart c = false := List.all_iff_forall_prop.mp (by decide)
  exact hall c (List.contains_iff_mem.mp h)

lemma not_isNamePart_of_isBlank {c : Char} (h : isBlank c = true) : isNamePart c = false :=
  (class_of_blank h).1

lemma not_isNamePart_of_delimiter {kind : GroupKind} {a b : Char}
    (h : kind.delimiters = some (a, b)) : isNamePart a = false ∧ isNamePart b = false := by
  cases kind <;> cases h <;> decide

/-- In front of the white space that a block ends with there is a border. -/
lemma parted_of_blockEnds {r : Nat} (h : blockEnds r ds = true) : Parted q ds := by
  refine parted_of_right fun d hd => ?_
  cases hblank : isBlank d with
  | true => exact not_isNamePart_of_isBlank hblank
  | false =>
    have hfirst : ∀ e ∈ ds.head?, isBlank e = false := fun e he =>
      Option.mem_unique he hd ▸ hblank
    rw [blockEnds_eq_false r hfirst] at h
    cases h

/-! ## Words that stand for values -/

lemma isBareName_of_keyword? {s : String} {k : Keyword} (h : keyword? s = some k) :
    isBareName s = true := by
  have hall : ∀ s ∈ ["null", "yes", "no", "true", "false"], isBareName s = true := by decide
  refine hall s (by_contra fun hs => ?_)
  rw [keyword?_eq_none_iff.mpr hs] at h
  cases h

/-- Only name characters spell a word that stands for a value. -/
lemma keyword?_eq_none_of_mem {c : Char} (hc : c ∈ cs) (h : isNamePart c = false) :
    keyword? (String.ofList cs) = none := by
  rw [Option.eq_none_iff_forall_ne_some]
  intro k hkey
  obtain ⟨d, es, hcs, hd, hes⟩ := exists_of_isBareName (isBareName_of_keyword? hkey)
  rw [String.toList_ofList] at hcs
  rw [hcs] at hc
  have hpart : isNamePart c = true := by
    rcases List.mem_cons.mp hc with rfl | hc
    · exact isNamePart_of_isNameStart hd
    · exact hes c hc
  rw [h] at hpart
  cases hpart

/-- A numeral begins with a digit or a minus sign, and no name does. -/
lemma keyword?_numeral (n : Numeral) : keyword? (String.ofList n.text) = none := by
  rw [Option.eq_none_iff_forall_ne_some]
  intro k hkey
  obtain ⟨d, es, hcs, hd, -⟩ := exists_of_isBareName (isBareName_of_keyword? hkey)
  rw [String.toList_ofList] at hcs
  obtain ⟨e, ds, hwhole⟩ := List.exists_cons_of_ne_nil n.whole_ne_nil
  have hdigit := n.isDigit_of_mem e (by simp [hwhole])
  have hmem : d = '-' ∨ d = e := by
    rw [Numeral.text, Numeral.sign, hwhole] at hcs
    split at hcs
    · exact .inl (List.cons.inj hcs).1.symm
    · exact .inr (List.cons.inj hcs).1.symm
  rcases hmem with rfl | rfl
  · exact absurd hd (by decide)
  · rw [not_isDigit_of_isNameStart hd] at hdigit
    cases hdigit

lemma ofKeyword_inj {k k' : Keyword} (h : ofKeyword k = ofKeyword k') : k = k' := by
  cases k <;> cases k' <;> simp_all [ofKeyword]

/-- Whether the token is read from the words that stand for a value can be seen from its keyword. -/
lemma undivided_of_keyword {t : Token}
    (hfollowed : t.isBareWord = true ∨ t.isNumber = true → ∀ d ∈ ds.head?, isNamePart d = false)
    (hpreceded : t.isBareWord = true → ∀ c ∈ q, isNamePart c = false)
    (hoperator : ∀ s, t = .operator s → ∀ d ∈ ds.head?, isOperatorChar d = false)
    (hblank : t = .space ∨ t = .lineBreak ∧ cs ≠ [] → ∀ d ∈ ds.head?, isBlank d = false)
    (hkey : ∀ k, t = ofKeyword k ↔ keyword? (String.ofList cs) = some k)
    (hname : ∀ n, t = .ident n false → keyword? n = none) : Undivided q t cs ds where
  followed := hfollowed
  preceded := hpreceded
  operator := hoperator
  blank := hblank
  null := by rw [← ofList_eq_iff, ← keyword?_eq_null_iff, ← hkey, ofKeyword]
  yes := by rw [← ofList_eq_iff, ← ofList_eq_iff, ← keyword?_eq_true_iff, ← hkey, ofKeyword]
  no := by rw [← ofList_eq_iff, ← ofList_eq_iff, ← keyword?_eq_false_iff, ← hkey, ofKeyword]
  name n h := keyword?_eq_none_iff.mp (hname n h)

/-- The token is no word and no number, and no word that stands for a value spells it. -/
lemma undivided_of_other {t : Token} (hword : t.isBareWord = false) (hnumber : t.isNumber = false)
    (hoperator : ∀ s, t = .operator s → ∀ d ∈ ds.head?, isOperatorChar d = false)
    (hblank : t = .space ∨ t = .lineBreak ∧ cs ≠ [] → ∀ d ∈ ds.head?, isBlank d = false)
    (hkey : keyword? (String.ofList cs) = none) : Undivided q t cs ds := by
  refine undivided_of_keyword (fun h => ?_) (fun h => ?_) hoperator hblank (fun k => ?_) fun n h => ?_
  · simp [hword, hnumber] at h
  · simp [hword] at h
  · refine iff_of_false ?_ (by simp [hkey])
    rintro rfl
    cases k <;> cases hword
  · subst h
    cases hword

/-! ## Single tokens -/

/-- Where words can begin nothing in front of a name goes on into it. -/
lemma Parted.preceded (hq : Parted q (cs ++ ds)) (hname : isBareName (String.ofList cs) = true) :
    ∀ c ∈ q, isNamePart c = false := by
  obtain ⟨d, es, hcs, hd, -⟩ := exists_of_isBareName hname
  rw [String.toList_ofList] at hcs
  subst hcs
  intro c hc
  cases hpart : isNamePart c with
  | false => rfl
  | true =>
    have hd' := hq c hc hpart d rfl
    rw [isNamePart_of_isNameStart hd] at hd'
    cases hd'

/-- A token that fits is undivided where words can begin. -/
lemma Fits.undivided {t : Token} (h : Fits q t cs ds) (hq : Parted q (cs ++ ds)) :
    Undivided q t cs ds := by
  cases h with
  | @keyword _ _ k hname hkey hds =>
    refine undivided_of_keyword (fun _ => hds) (fun _ => hq.preceded hname) ?_ ?_ (fun k' => ?_) ?_
    · intro s hs
      cases k <;> cases hs
    · rintro (hk | ⟨hk, -⟩) <;> cases k <;> cases hk
    · rw [hkey, Option.some.injEq]
      exact ⟨ofKeyword_inj, congrArg ofKeyword⟩
    · intro n hn
      cases k <;> cases hn
  | bareName hname hkey hds =>
    refine undivided_of_keyword (fun _ => hds) (fun _ => hq.preceded hname) (by simp) (by simp)
      (fun k => ?_) ?_
    · rw [hkey]
      refine iff_of_false (fun hk => ?_) (by simp)
      cases k <;> cases hk
    · rintro n ⟨⟩
      exact hkey
  | quotedName =>
    -- it holds a character that no word holds
    exact undivided_of_other rfl rfl (by simp) (by simp)
      (keyword?_eq_none_of_mem (c := '"') (by simp [Token.quotedName]) (by decide))
  | number n _ hds =>
    rw [ofNumeral]
    refine undivided_of_keyword (fun _ => hds.loose) (by simp [isBareWord]) (by simp) (by simp)
      (fun k => ?_) (by simp)
    rw [keyword?_numeral]
    refine iff_of_false (fun hk => ?_) (by simp)
    cases k <;> cases hk
  | text =>
    exact undivided_of_other rfl rfl (by simp) (by simp)
      (keyword?_eq_none_of_mem (c := '"') (by simp) (by decide))
  | operator hcs hne hds _ =>
    obtain ⟨c, hc⟩ := List.exists_mem_of_ne_nil _ hne
    exact undivided_of_other rfl rfl (fun _ _ => hds) (by simp)
      (keyword?_eq_none_of_mem hc (not_isNamePart_of_isOperatorChar (hcs c hc)))
  | comma =>
    exact undivided_of_other rfl rfl (by simp) (by simp)
      (keyword?_eq_none_of_mem (c := ',') (by simp) (by decide))
  | blank hcs hne hds =>
    obtain ⟨c, hc⟩ := List.exists_mem_of_ne_nil _ hne
    have hkey := keyword?_eq_none_of_mem hc (not_isNamePart_of_isBlank (hcs c hc))
    rw [ofBlank]
    split
    · exact undivided_of_other rfl rfl (by simp) (fun _ => hds) hkey
    · exact undivided_of_other rfl rfl (by simp) (fun _ => hds) hkey

/-- Behind every token that fits there is a border. -/
lemma Fits.parted {t : Token} (h : Fits q t cs ds) : Parted (lastOf q cs) ds := by
  cases h with
  | keyword _ _ hds => exact parted_of_right hds
  | bareName _ _ hds => exact parted_of_right hds
  | @quotedName k n =>
    cases k with
    | zero =>
      have hsplit : Token.quotedName 0 n = ('r' :: '"' :: n) ++ ['"'] := by
        simp [Token.quotedName, hashes]
      rw [hsplit, lastOf_append]
      exact parted_of_mem (by simp) (List.forall_mem_singleton.mpr (by decide))
    | succ k =>
      rw [lastOf_quotedName]
      exact parted_of_left fun c hc => by cases hc; decide
  | number n _ hds => exact parted_of_right hds.loose
  | text =>
    rw [lastOf_append]
    exact parted_of_mem (by simp) (List.forall_mem_singleton.mpr (by decide))
  | operator hcs hne _ _ =>
    exact parted_of_mem hne fun c hc => not_isNamePart_of_isOperatorChar (hcs c hc)
  | comma => exact parted_of_mem (by simp) (List.forall_mem_singleton.mpr (by decide))
  | blank hcs hne _ => exact parted_of_mem hne fun c hc => not_isNamePart_of_isBlank (hcs c hc)

/-! ## Rows -/

/-- Nothing is read from nothing. -/
lemma Course.eq_nil (h : Course E q p ts [] ds) : ts = [] := by
  generalize hcs : [] = cs at h
  cases h with
  | nil => rfl
  | token _ head _ => exact absurd (List.append_eq_nil_iff.mp hcs.symm).1 head.ne_nil
  | group => cases hcs
  | block _ head =>
    simp only [List.append_assoc] at hcs
    exact absurd (List.append_eq_nil_iff.mp hcs.symm).1 head.ne_nil

/-- The token takes a part of the characters `cs` at `p`, and is undivided there. -/
def Kept (q : Option Char) (p : Position) (t : Located Token) (cs ds : List Char) : Prop :=
  ∃ front mid back, cs = front ++ mid ++ back ∧
    t.span = ⟨p.after front, p.after (front ++ mid)⟩ ∧
    Undivided (lastOf q front) t.value mid (back ++ ds)

lemma Undivided.kept {u : Token} {back : List Char} (h : Undivided q u cs (back ++ ds)) :
    Kept q p ⟨u, p, p.after cs⟩ (cs ++ back) ds := ⟨[], cs, back, rfl, rfl, h⟩

lemma Kept.behind {es : List Char} (xs : List Char)
    (h : Kept (lastOf q xs) (p.after xs) t es ds) : Kept q p t (xs ++ es) ds := by
  obtain ⟨front, mid, back, rfl, hspan, hundivided⟩ := h
  rw [← Position.after_append, ← Position.after_append, ← List.append_assoc] at hspan
  rw [← lastOf_append] at hundivided
  exact ⟨xs ++ front, mid, back, by simp, hspan, hundivided⟩

lemma undivided_lineBreak (ds : List Char) : Undivided q lineBreak [] ds := by
  refine undivided_of_other rfl rfl (fun s hs => by cases hs) ?_ rfl
  rintro (h | ⟨-, h⟩)
  · cases h
  · exact absurd rfl h

/-- The tokens of a row that begins behind a border are undivided. -/
lemma Course.undivided (h : Course E q p ts cs ds) (hq : Parted q (cs ++ ds)) (ht : t ∈ ts) :
    Kept q p t cs ds := by
  induction h with
  | nil => cases ht
  | @token E q p u ts cs es ds _ head _ ih =>
    rcases List.mem_cons.mp ht with rfl | ht
    · exact (head.undivided (by simpa using hq)).kept
    · exact .behind cs (ih head.parted ht)
  | @group E q p kind a b us ts cs es ds hkind inside _ _ ih =>
    obtain ⟨ha, hb⟩ := not_isNamePart_of_delimiter hkind
    rcases List.mem_cons.mp ht with rfl | ht
    · exact (undivided_of_other rfl rfl (by simp) (by simp)
        (keyword?_eq_none_of_mem (c := a) (by simp) ha)).kept
    · refine .behind (a :: cs ++ [b]) ?_
      simp only [lastOf_append, lastOf_cons, lastOf_nil]
      exact ih (parted_of_left fun c hc => by cases hc; exact hb) ht
  | @block E q p w us ts word blank cs es ds _ head _ hleads inside hends tail _ ih =>
    have hword : Undivided q w word (blank ++ cs ++ es ++ ds) := by
      simpa using head.undivided (by simpa using hq)
    rcases List.mem_cons.mp ht with rfl | ht
    · simpa using hword.kept (p := p)
    rcases List.mem_cons.mp ht with rfl | ht
    · have hline := not_isNamePart_of_isBlank (hleads.blanks _ hleads.line)
      have hblock : Undivided (lastOf q word) (.group .indented us) (blank ++ cs) (es ++ ds) :=
        undivided_of_other rfl rfl (by simp) (by simp)
          (keyword?_eq_none_of_mem (List.mem_append_left cs hleads.line) hline)
      simpa [Position.after_append] using hblock.kept.behind (p := p) word
    rcases List.mem_cons.mp ht with rfl | ht
    · exact (undivided_lineBreak (es ++ ds)).kept.behind (word ++ blank ++ cs)
    · -- behind the block a new line begins, unless the row ends there
      rcases hends with hends | rfl
      · exact .behind _ (ih (parted_of_blockEnds hends) ht)
      · rw [tail.eq_nil] at ht
        cases ht

/-- Every token of the tree is in a row that runs a course behind a border. -/
lemma exists_course (h : ofText text = .ok tokens) (ht : Within tokens t) :
    ∃ E row before cs ds, text = before ++ cs ++ ds ∧ t ∈ row ∧
      Course E before.getLast? (Position.after {} before) row cs ds ∧
      Parted before.getLast? (cs ++ ds) := by
  have hlast (cs : List Char) : lastOf none cs = cs.getLast? := by rw [lastOf_eq, Option.or_none]
  induction ht with
  | top ht =>
    exact ⟨none, tokens, [], text, [], by simp, ht, course_of_ofText h, parted_of_left (by simp)⟩
  | @inside t kind us span _ ht ih =>
    obtain ⟨E, row, before, cs, ds, rfl, hmem, hcourse, -⟩ := ih
    rw [← hlast] at hcourse
    generalize hu : (⟨.group kind us, span⟩ : Located Token) = u at hmem
    cases hcourse.seat_of_mem hmem with
    | plain _ _ hfits _ =>
      cases hu
      exact absurd rfl (hfits.ne_group kind us)
    | @group _ a b _ front mid back hcs hkind inside =>
      cases hu
      subst hcs
      rw [← Position.after_append, ← List.append_assoc] at inside
      have hopening : (before ++ front ++ [a]).getLast? = some a := by simp
      refine ⟨none, us, before ++ front ++ [a], mid, b :: (back ++ ds), by simp, ht, ?_, ?_⟩
      · rwa [hopening]
      · rw [hopening]
        exact parted_of_left fun c hc => by
          cases hc
          exact (not_isNamePart_of_delimiter hkind).1
    | @block _ _ _ front blank mid back hcs _ _ hleads inside _ =>
      cases hu
      subst hcs
      rw [← Position.after_append, ← List.append_assoc, ← lastOf_append, ← List.append_assoc,
        hlast] at inside
      refine ⟨_, us, before ++ front ++ blank, mid, back ++ ds, by simp, ht, inside, ?_⟩
      rw [← hlast, lastOf_append]
      exact parted_of_mem (List.ne_nil_of_mem hleads.line) fun c hc =>
        not_isNamePart_of_isBlank (hleads.blanks c hc)
    | close => cases hu

/-- Every token of a text, at any depth, is undivided. -/
theorem undivided_of_ofText (h : ofText text = .ok tokens) (ht : Within tokens t) :
    ∃ before cs after, text = before ++ cs ++ after ∧
      t.span = ⟨Position.after {} before, Position.after {} (before ++ cs)⟩ ∧
      Undivided before.getLast? t.value cs after := by
  obtain ⟨E, row, before, cs, ds, rfl, hmem, hcourse, hparted⟩ := exists_course h ht
  obtain ⟨front, mid, back, rfl, hspan, hundivided⟩ := hcourse.undivided hparted hmem
  rw [← Position.after_append, ← Position.after_append, ← List.append_assoc] at hspan
  refine ⟨before ++ front, mid, back ++ ds, by simp, hspan, ?_⟩
  rwa [lastOf_eq, ← List.getLast?_append] at hundivided

/-- A name in a block that begins like a word that stands for a value. -/
theorem undivided_of_longer_name : ∃ tokens t before cs after,
    ofText "where\n  nullable-1".toList = .ok tokens ∧ Within tokens t ∧
      t.value = .ident "nullable" false ∧
      "where\n  nullable-1".toList = before ++ cs ++ after ∧
      t.span = ⟨Position.after {} before, Position.after {} (before ++ cs)⟩ ∧
      Undivided before.getLast? t.value cs after := by
  have hfound : (ofText "where\n  nullable-1".toList).toOption.any (fun tokens => tokens.any fun t =>
      t.value.group?.any fun k => k.2.any fun u => u.value.isWord "nullable") = true := by
    decide +kernel
  obtain ⟨tokens, htokens, hfound⟩ := (Option.any_eq_true _ _).mp hfound
  obtain ⟨⟨t, span⟩, ht, hfound⟩ := List.any_eq_true.mp hfound
  obtain ⟨⟨kind, us⟩, hgroup, hfound⟩ := (Option.any_eq_true _ _).mp hfound
  obtain ⟨u, hu, hname⟩ := List.any_eq_true.mp hfound
  obtain rfl := group?_eq_some_iff.mp hgroup
  have h := eq_ok_of_toOption htokens
  have hwithin : Within tokens u := .inside (.top ht) hu
  obtain ⟨before, cs, after, htext, hspan, hundivided⟩ := undivided_of_ofText h hwithin
  refine ⟨tokens, u, before, cs, after, h, hwithin, ?_, htext, hspan, hundivided⟩
  obtain ⟨v, span⟩ := u
  cases v <;> simp_all [isWord]

end Formulary.Token
