/-
# Minus signs behind operands

A minus sign directly behind an operand subtracts, so that it is no part of the number behind it.
Whether an operand ends is told by the single character in front of the sign.  That character does
tell it for every kind of operand but one: a quoted name with number signs ends with a number sign,
which ends no other operand.  So a number with a minus sign stands directly behind such names,
wherever the text allows for one, and behind no other operand.
-/
import Formulary.Proofs.Text.Spans
import Formulary.Proofs.Token.Blocks

namespace Formulary.Token

open Text Word Parsing

variable {q : Option Char} {p : Position} {E : Option Nat} {g : Option (Located Token)}
  {tokens row : List (Located Token)} {text cs ds : List Char} {t n : Located Token}

/-- Whether an operand ends with the token: a name, a value, or a group in brackets. -/
def endsTerm : Token → Bool
  | .ident .. | .number .. | .bool _ | .null | .text _ => true
  | .group kind _ => kind != .indented
  | .operator _ | .comma | .space | .lineBreak => false

/-- A number with a minus sign. -/
def isSigned : Token → Bool
  | .number whole _ => whole.toList.head? == some '-'
  | _ => false

/-! ## Ends of operands -/

/-- The last of the characters tells that an operand ends. -/
def TellsEnd (cs : List Char) : Prop := ∃ c ∈ cs.getLast?, endsOperand c = true

lemma tellsEnd_append (front : List Char) (hne : cs ≠ []) (hcs : ∀ c ∈ cs, endsOperand c = true) :
    TellsEnd (front ++ cs) := by
  refine ⟨cs.getLast hne, ?_, hcs _ (List.getLast_mem hne)⟩
  rw [List.getLast?_append, List.getLast?_eq_getLast_of_ne_nil hne]
  rfl

lemma TellsEnd.append (h : TellsEnd cs) (front : List Char) : TellsEnd (front ++ cs) := by
  obtain ⟨c, hc, hends⟩ := h
  refine ⟨c, ?_, hends⟩
  rw [List.getLast?_append, Option.mem_def.mp hc]
  rfl

lemma endsOperand_of_isNamePart {c : Char} (h : isNamePart c = true) : endsOperand c = true := by
  rw [endsOperand, h]
  rfl

lemma tellsEnd_of_isBareName (h : isBareName (String.ofList cs) = true) : TellsEnd cs := by
  obtain ⟨c, es, hcs, hc, hes⟩ := exists_of_isBareName h
  rw [String.toList_ofList] at hcs
  subst hcs
  refine tellsEnd_append [] (by simp) (List.forall_mem_cons.mpr
    ⟨endsOperand_of_isNamePart (isNamePart_of_isNameStart hc), fun d hd =>
      endsOperand_of_isNamePart (hes d hd)⟩)

/-- A numeral ends with digits. -/
lemma tellsEnd_numeral (n : Numeral) : TellsEnd n.text := by
  have hdigit {es : List Char} (hes : ∀ c ∈ es, c ∈ n.whole ++ n.fraction) :
      ∀ c ∈ es, endsOperand c = true := fun c hc =>
    endsOperand_of_isNamePart (class_of_digit (n.isDigit_of_mem c (hes c hc))).2.1
  rw [Numeral.text, Numeral.tail]
  split
  · rw [List.append_nil]
    exact tellsEnd_append n.sign n.whole_ne_nil (hdigit fun c hc => List.mem_append_left _ hc)
  · rename_i hne
    rw [← List.singleton_append, ← List.append_assoc]
    exact tellsEnd_append _ hne (hdigit fun c hc => List.mem_append_right _ hc)

/-- Where an operand ends its last character tells so, but for the number signs of a quoted name. -/
lemma Fits.tellsEnd {t : Token} (h : Fits q t cs ds) (ht : t.endsTerm = true) :
    TellsEnd cs ∨ ∃ name k, t = .ident name true ∧ 1 ≤ k ∧ cs = Token.quotedName k name.toList := by
  cases h with
  | keyword hname => exact .inl (tellsEnd_of_isBareName hname)
  | bareName hname => exact .inl (tellsEnd_of_isBareName hname)
  | @quotedName k n =>
    cases k with
    | zero =>
      have hquote : ∀ c ∈ ['"'], endsOperand c = true := List.forall_mem_singleton.mpr (by decide)
      exact .inl (tellsEnd_append ('r' :: '"' :: n) (by simp) hquote)
    | succ k => exact .inr ⟨_, k + 1, rfl, Nat.succ_pos k, by rw [String.toList_ofList]⟩
  | number n => exact .inl (tellsEnd_numeral n)
  | text =>
    exact .inl (tellsEnd_append _ (by simp) (List.forall_mem_singleton.mpr (by decide)))
  | operator => cases ht
  | comma => cases ht
  | blank =>
    rw [ofBlank] at ht
    split at ht <;> cases ht

/-! ## Numbers with a minus sign -/

/-- The text begins with a number that has a minus sign. -/
def BeginsSigned (text : List Char) : Prop :=
  ∃ n es, text = Numeral.text n ++ es ∧ n.negative = true ∧ EndsNumber n es

lemma BeginsSigned.head? (h : BeginsSigned text) : text.head? = some '-' := by
  obtain ⟨n, es, rfl, hnegative, -⟩ := h
  simp [Numeral.text, Numeral.sign, hnegative]

lemma signed_of_head? {n : Numeral} (h : n.text.head? = some '-') :
    n.negative = true ∧ (ofNumeral n).isSigned = true := by
  cases hnegative : n.negative with
  | true => exact ⟨rfl, by simp [ofNumeral, isSigned, Numeral.sign, hnegative]⟩
  | false =>
    -- without a sign the number begins with a digit
    obtain ⟨d, ds, hwhole⟩ := List.exists_cons_of_ne_nil n.whole_ne_nil
    have hd : d = '-' := by
      simpa [Numeral.text, Numeral.sign, hnegative, hwhole] using h
    have hdigit := n.isDigit_of_mem d (by simp [hwhole])
    rw [hd] at hdigit
    cases hdigit

/-- A number has a minus sign only where the character in front of it ends no operand. -/
lemma Fits.signed_inv {t : Token} (h : Fits q t cs ds) (ht : t.isSigned = true) :
    BeginsSigned (cs ++ ds) ∧ ∀ c ∈ q, endsOperand c = false := by
  cases h with
  | @keyword _ _ k => cases k <;> cases ht
  | number n hq hds =>
    have hhead : n.text.head? = some '-' := by
      have hwhole : (n.sign ++ n.whole).head? = some '-' := by
        simpa [ofNumeral, isSigned] using ht
      rw [Numeral.text, List.head?_append, hwhole]
      rfl
    have hnegative := (signed_of_head? hhead).1
    exact ⟨⟨n, ds, rfl, hnegative, hds⟩, hq hnegative⟩
  | blank =>
    rw [ofBlank] at ht
    split at ht <;> cases ht
  | _ => cases ht

/-- Where no operand ends a minus sign in front of a number is read with it. -/
lemma Fits.isSigned {t : Token} (h : Fits q t cs ds) (hbegins : BeginsSigned (cs ++ ds))
    (hq : ∀ c ∈ q, endsOperand c = false) : t.isSigned = true := by
  have hhead : cs.head? = some '-' := by
    rw [← hbegins.head?, List.head?_append_of_ne_nil _ h.ne_nil]
  have hname (hname : isBareName (String.ofList cs) = true) : t.isSigned = true := by
    obtain ⟨c, es, hcs, hc, -⟩ := exists_of_isBareName hname
    rw [String.toList_ofList] at hcs
    rw [hcs, List.head?_cons, Option.some.injEq] at hhead
    rw [hhead] at hc
    exact absurd (class_of_isNamePart (isNamePart_of_isNameStart hc)) (by simp)
  cases h with
  | keyword h => exact hname h
  | bareName h => exact hname h
  | quotedName => cases hhead
  | number n => exact (signed_of_head? hhead).2
  | text => cases hhead
  | operator _ _ _ hnumber =>
    -- the number has been tried first
    obtain ⟨n, es, heq, -, hends⟩ := hbegins
    obtain ⟨c, hc, hends⟩ := hnumber n es heq hends
    rw [hq c hc] at hends
    cases hends
  | comma => cases hhead
  | blank hcs =>
    exact absurd (hcs '-' (List.mem_of_mem_head? hhead)) (by decide)

/-! ## Tokens of a text -/

/-- A number with a minus sign is read behind what tells no end of an operand. -/
lemma exists_of_isSigned (h : ofText text = .ok tokens) (hn : Within tokens n)
    (hsigned : n.value.isSigned = true) :
    ∃ front behind, text = front ++ behind ∧ n.span.start = Position.after {} front ∧
      ¬TellsEnd front ∧ BeginsSigned behind := by
  obtain ⟨g, E, row, hrow, hmem⟩ := exists_row h hn
  obtain ⟨before, cs, ds, rfl, hcourse, -⟩ := hrow.lies h
  cases hcourse.seat_of_mem hmem with
  | @plain _ front mid back hcs _ hfits _ =>
    subst hcs
    obtain ⟨hbegins, hq⟩ := hfits.signed_inv hsigned
    refine ⟨before ++ front, mid ++ (back ++ ds), by simp, (Position.after_append _ _ _).symm, ?_,
      hbegins⟩
    rintro ⟨c, hc, hends⟩
    rw [← lastOf_append, lastOf_eq, Option.mem_def.mp hc] at hq
    rw [hq c rfl] at hends
    cases hends
  | group => cases hsigned
  | block => cases hsigned
  | close => cases hsigned

/-- An operand goes up to a character that tells its end, or it is a quoted name with number
signs. -/
lemma exists_of_endsTerm (h : ofText text = .ok tokens) (ht : Within tokens t)
    (hends : t.value.endsTerm = true) :
    ∃ front cs behind, text = front ++ cs ++ behind ∧
      t.span = ⟨Position.after {} front, Position.after {} (front ++ cs)⟩ ∧
      (TellsEnd (front ++ cs) ∨
        ∃ name k, t.value = .ident name true ∧ 1 ≤ k ∧ cs = quotedName k name.toList) := by
  obtain ⟨g, E, row, hrow, hmem⟩ := exists_row h ht
  obtain ⟨before, cs, ds, rfl, hcourse, -⟩ := hrow.lies h
  cases hcourse.seat_of_mem hmem with
  | @plain _ front mid back hcs _ hfits _ =>
    subst hcs
    refine ⟨before ++ front, mid, back ++ ds, by simp, ?_, ?_⟩
    · rw [← Position.after_append, ← Position.after_append, List.append_assoc]
    · exact (hfits.tellsEnd hends).imp_left fun h => h.append _
  | @group kind a b us front mid back hcs hkind _ =>
    subst hcs
    refine ⟨before ++ front, a :: mid ++ [b], back ++ ds, by simp, ?_, .inl ?_⟩
    · rw [← Position.after_append, ← Position.after_append, List.append_assoc]
    · rw [← List.append_assoc]
      refine tellsEnd_append _ (by simp) (List.forall_mem_singleton.mpr ?_)
      cases kind <;> cases hkind <;> decide
  | block => cases hends
  | close => cases hends

/-! ## What a row goes on with -/

/-- A row is not over in front of a minus sign. -/
lemma BeginsSigned.not_over (h : BeginsSigned ds) :
    ¬(RowOver g p ds ∨ E.any (blockEnds · ds) = true) := by
  have hhead := h.head?
  rintro (hover | hover)
  · cases g with
    | none =>
      rw [show ds = [] from hover] at hhead
      cases hhead
    | some g =>
      obtain ⟨kind, us, a, b, -, hkind, hb, -⟩ := hover
      rw [hhead, Option.some.injEq] at hb
      subst hb
      cases kind <;> cases hkind
  · obtain ⟨e, -, he⟩ := (Option.any_eq_true _ _).mp hover
    rw [blockEnds_eq_false e fun c hc => ?_] at he
    · cases he
    · obtain rfl : c = '-' := by simpa [hhead] using hc.symm
      decide

/-- Where the text goes on with a minus sign in front of a number, and no operand ends there, a row
goes on with that number. -/
lemma Course.exists_signed (h : Course E q p row cs ds) (hbegins : BeginsSigned (cs ++ ds))
    (hq : ∀ c ∈ q, endsOperand c = false)
    (hover : RowOver g (p.after cs) ds ∨ E.any (blockEnds · ds) = true) :
    ∃ n ∈ row, n.span.start = p ∧ n.value.isSigned = true := by
  cases h with
  | nil => exact absurd hover hbegins.not_over
  | token _ head =>
    rw [List.append_assoc] at hbegins
    exact ⟨_, List.mem_cons_self, rfl, head.isSigned hbegins hq⟩
  | @group _ _ _ kind _ _ _ _ _ _ _ hkind =>
    have hhead := hbegins.head?
    simp only [List.cons_append, List.head?_cons, Option.some.injEq] at hhead
    subst hhead
    cases kind <;> cases hkind
  | @block _ _ _ w _ _ _ _ _ _ _ _ head hopens =>
    have hsigned : w.isSigned = true := head.isSigned (by simpa using hbegins) hq
    rcases opensBlock_iff.mp hopens with rfl | rfl <;> cases hsigned

/-- A quoted name with a number sign does not tell that an operand ends. -/
lemma lastOf_quotedName (q : Option Char) (k : Nat) (name : List Char) :
    lastOf q (quotedName (k + 1) name) = some '#' := by
  have hsigns : hashes (k + 1) = hashes k ++ ['#'] := List.replicate_succ'
  have hsplit : quotedName (k + 1) name =
      'r' :: hashes (k + 1) ++ '"' :: name ++ '"' :: hashes k ++ ['#'] := by
    rw [quotedName]
    nth_rewrite 2 [hsigns]
    simp
  rw [lastOf_eq, hsplit, List.getLast?_concat]
  rfl

/-- Behind such a name a minus sign in front of a number is read with it. -/
lemma exists_signed_behind {name : String} {k : Nat} {front behind : List Char}
    (h : ofText text = .ok tokens) (ht : Within tokens t) (hname : t.value = .ident name true)
    (hk : 1 ≤ k) (htext : text = front ++ quotedName k name.toList ++ behind)
    (hspan : t.span = ⟨Position.after {} front,
      Position.after {} (front ++ quotedName k name.toList)⟩) (hbegins : BeginsSigned behind) :
    ∃ n, Within tokens n ∧ n.span.start = t.span.stop ∧ n.value.isSigned = true := by
  obtain ⟨g, E, row, hrow, hmem⟩ := exists_row h ht
  obtain ⟨before, cs, ds, rfl, hcourse, hover⟩ := hrow.lies h
  cases hcourse.seat_of_mem hmem with
  | @plain _ front' mid back hcs _ _ htail =>
    subst hcs
    dsimp only at hname hspan ⊢
    subst hname
    -- the seat is the place of the name
    rw [← Position.after_append, ← Position.after_append, ← List.append_assoc, Span.mk.injEq] at hspan
    have hparts : before ++ front' ++ mid ++ (back ++ ds) = _ :=
      Eq.trans (by simp) htext
    obtain ⟨-, rfl, rfl⟩ := parts_eq_of_places hparts hspan.1 hspan.2
    obtain ⟨us, hus, hcourse⟩ := htail (by simp [opensBlock, isWord])
    obtain ⟨k, rfl⟩ := Nat.exists_eq_add_one_of_ne_zero (Nat.ne_of_gt hk)
    rw [lastOf_append, lastOf_quotedName] at hcourse
    rw [← Position.after_append] at hcourse ⊢
    have hrest : RowOver g ((Position.after {} (before ++ (front' ++ quotedName (k + 1)
        name.toList))).after back) ds ∨ E.any (blockEnds · ds) = true := by
      rw [← Position.after_append]
      simpa using hover
    obtain ⟨n, hn, hstart, hsigned⟩ :=
      hcourse.exists_signed hbegins (fun c hc => by cases hc; decide) hrest
    exact ⟨n, hrow.within (hus.subset hn), hstart, hsigned⟩
  | group => cases hname
  | block => cases hname
  | close => cases hname

/-- At any depth of the tokens of a text, a number with a minus sign directly follows an operand
exactly if that is a quoted name with number signs and the text goes on with such a number. -/
theorem signed_behind_operand_iff (h : ofText text = .ok tokens) (ht : Within tokens t)
    (hends : t.value.endsTerm = true) :
    (∃ n, Within tokens n ∧ n.span.start = t.span.stop ∧ n.value.isSigned = true) ↔
      ∃ name k front behind, t.value = .ident name true ∧ 1 ≤ k ∧
        text = front ++ quotedName k name.toList ++ behind ∧
        t.span = ⟨Position.after {} front,
          Position.after {} (front ++ quotedName k name.toList)⟩ ∧ BeginsSigned behind := by
  constructor
  · rintro ⟨n, hn, hstart, hsigned⟩
    obtain ⟨front, behind, htext, hn, hnot, hbegins⟩ := exists_of_isSigned h hn hsigned
    obtain ⟨front', cs, behind', htext', hspan, hend⟩ := exists_of_endsTerm h ht hends
    have hfront : front = front' ++ cs := by
      refine eq_of_byte_eq ⟨behind, htext.symm⟩ ⟨behind', htext'.symm⟩ ?_
      rw [← hn, hstart, hspan]
    subst hfront
    obtain ⟨name, k, hname, hk, rfl⟩ := hend.resolve_left hnot
    exact ⟨name, k, front', behind, hname, hk, htext, hspan, hbegins⟩
  · rintro ⟨name, k, front, behind, hname, hk, htext, hspan, hbegins⟩
    exact exists_signed_behind h ht hname hk htext hspan hbegins

/-- A name with one number sign, and a number directly behind it. -/
lemma exists_glued : ∃ tokens t n, ofText "r#\"a\"#-1".toList = .ok tokens ∧ Within tokens t ∧
    Within tokens n ∧ t.value.endsTerm = true ∧ n.value.isSigned = true ∧
    n.span.start = t.span.stop := by
  have hfound : (ofText "r#\"a\"#-1".toList).toOption.any (fun tokens => tokens.any fun t =>
      t.value.endsTerm && tokens.any fun n => n.value.isSigned && n.span.start == t.span.stop) =
        true := by decide +kernel
  obtain ⟨tokens, htokens, hfound⟩ := (Option.any_eq_true _ _).mp hfound
  obtain ⟨t, ht, hfound⟩ := List.any_eq_true.mp hfound
  rw [Bool.and_eq_true] at hfound
  obtain ⟨hends, hfound⟩ := hfound
  obtain ⟨n, hn, hfound⟩ := List.any_eq_true.mp hfound
  rw [Bool.and_eq_true, beq_iff_eq] at hfound
  exact ⟨tokens, t, n, eq_ok_of_toOption htokens, .top ht, .top hn, hends, hfound⟩

/-- What the number behind the name tells about the text. -/
theorem signed_behind_operand_iff_of_one : ∃ tokens t, ofText "r#\"a\"#-1".toList = .ok tokens ∧
    Within tokens t ∧ t.value.endsTerm = true ∧
    ∃ name k front behind, t.value = .ident name true ∧ 1 ≤ k ∧
      "r#\"a\"#-1".toList = front ++ quotedName k name.toList ++ behind ∧
      t.span = ⟨Position.after {} front, Position.after {} (front ++ quotedName k name.toList)⟩ ∧
      BeginsSigned behind := by
  obtain ⟨tokens, t, n, hok, ht, hn, hends, hsigned, hstart⟩ := exists_glued
  exact ⟨tokens, t, hok, ht, hends,
    (signed_behind_operand_iff hok ht hends).mp ⟨n, hn, hstart, hsigned⟩⟩

/-- So it is not for every operand that a minus sign directly behind it subtracts. -/
theorem not_unsigned_behind_operands : ¬∀ text tokens t n, ofText text = .ok tokens →
    Within tokens t → Within tokens n → t.value.endsTerm = true → n.span.start = t.span.stop →
    n.value.isSigned = false := by
  intro hall
  obtain ⟨tokens, t, n, hok, ht, hn, hends, hsigned, hstart⟩ := exists_glued
  have hunsigned := hall _ tokens t n hok ht hn hends hstart
  rw [hsigned] at hunsigned
  cases hunsigned

end Formulary.Token
