/-
# Tokens where they stand

A token is read between what is in front of it and what is behind it.  It ends where its class of
characters ends, a minus sign in front of digits is part of a number exactly where no operand ends,
and a word is a name only if it is no keyword.  `Fits` says all of this of a token that is no group,
and the next token of a text always fits where it is read.
-/
import Formulary.Proofs.Token.Onward
import Formulary.Proofs.Token.Steps

namespace Formulary.Token

open Text Word Parsing

variable {c c' : Cursor Char} {p : Position} {q : Option Char} {text cs ds : List Char} {t : Token}

lemma ne_nil_of_isBareName (h : isBareName (String.ofList cs) = true) : cs ≠ [] := by
  rintro rfl
  revert h
  decide

/-- The token is read from `cs`, behind the character `q` and in front of `ds`, and is no group. -/
inductive Fits (q : Option Char) : Token → List Char → List Char → Prop
  | keyword {w ds : List Char} {k : Keyword} (hname : isBareName (String.ofList w) = true)
      (hkey : keyword? (String.ofList w) = some k) (hds : ∀ d ∈ ds.head?, isNamePart d = false) :
      Fits q (ofKeyword k) w ds
  | bareName {w ds : List Char} (hname : isBareName (String.ofList w) = true)
      (hkey : keyword? (String.ofList w) = none) (hds : ∀ d ∈ ds.head?, isNamePart d = false) :
      Fits q (.ident (String.ofList w) false) w ds
  | quotedName {k : Nat} {n : List Char} (ds : List Char) (hn : Unclosed k n) :
      Fits q (.ident (String.ofList n) true) (quotedName k n) ds
  | number (n : Numeral) {ds : List Char} (hq : n.negative = true → ∀ c ∈ q, endsOperand c = false)
      (hds : EndsNumber n ds) : Fits q (ofNumeral n) n.text ds
  | text {es cs : List Char} (ds : List Char) (hcs : Unescapes es cs) :
      Fits q (.text (String.ofList cs)) ('"' :: es ++ ['"']) ds
  | operator {cs ds : List Char} (hcs : ∀ c ∈ cs, isOperatorChar c = true) (hne : cs ≠ [])
      (hds : ∀ d ∈ ds.head?, isOperatorChar d = false)
      (hnumber : ∀ n es, cs ++ ds = n.text ++ es → EndsNumber n es → ∃ c ∈ q, endsOperand c = true) :
      Fits q (.operator (String.ofList cs)) cs ds
  | comma (ds : List Char) : Fits q .comma [','] ds
  | blank {cs ds : List Char} (hcs : ∀ c ∈ cs, isBlank c = true) (hne : cs ≠ [])
      (hds : ∀ d ∈ ds.head?, isBlank d = false) : Fits q (ofBlank cs) cs ds

lemma Fits.ne_nil (h : Fits q t cs ds) : cs ≠ [] := by
  cases h with
  | keyword hname => exact ne_nil_of_isBareName hname
  | bareName hname => exact ne_nil_of_isBareName hname
  | number n => simp [Numeral.text, n.whole_ne_nil]
  | operator _ hne => exact hne
  | blank _ hne => exact hne
  | quotedName => simp [Token.quotedName]
  | text => simp
  | comma => simp

lemma Fits.ne_group (h : Fits q t cs ds) (kind : GroupKind) (ts : List (Located Token)) :
    t ≠ .group kind ts := by
  cases h with
  | @keyword _ _ k => cases k <;> nofun
  | blank =>
    rw [ofBlank]
    split <;> nofun
  | _ => nofun

/-- What the parser reads fits where it is read. -/
def Finds (m : Parser Char Token) : Prop :=
  ∀ ⦃c p text t c'⦄, Stands c p text → m c = .ok t c' →
    ∃ cs ds, text = cs ++ ds ∧ Stands c' (p.after cs) ds ∧
      Fits (c.previous.map Located.value) t cs ds

/-! ## Names and keywords -/

lemma isBareName_of_length? (h : namePattern.length? (cs ++ ds) = some cs.length) (hne : cs ≠ []) :
    isBareName (String.ofList cs) = true := by
  obtain ⟨c, cs, rfl⟩ := List.exists_cons_of_ne_nil hne
  simp only [namePattern, List.cons_append, Option.ite_none_right_eq_some, Option.some.injEq,
    List.length_cons, Nat.add_comm 1, Nat.add_right_cancel_iff] at h
  rw [isBareName, String.toList_ofList]
  dsimp only
  rw [h.1, Bool.true_and, List.all_eq_true]
  exact mem_of_runLength h.2

lemma not_isNamePart_of_length? (h : namePattern.length? (cs ++ ds) = some cs.length) (hne : cs ≠ []) :
    ∀ d ∈ ds.head?, isNamePart d = false := by
  obtain ⟨c, cs, rfl⟩ := List.exists_cons_of_ne_nil hne
  simp only [namePattern, List.cons_append, Option.ite_none_right_eq_some, Option.some.injEq,
    List.length_cons, Nat.add_comm 1, Nat.add_right_cancel_iff] at h
  exact not_head_of_runLength h.2

/-- The longest name at the front of a text. -/
lemma matching_name_inv {w : List Char} (hst : Stands c p text)
    (h : matching namePattern c = .ok w c') :
    ∃ ds, text = w ++ ds ∧ Stands c' (p.after w) ds ∧ isBareName (String.ofList w) = true ∧
      ∀ d ∈ ds.head?, isNamePart d = false := by
  obtain ⟨ds, rfl, hst₁, hlen, hne⟩ := reads_matching _ hst h
  exact ⟨ds, rfl, hst₁, isBareName_of_length? hlen hne, not_isNamePart_of_length? hlen hne⟩

lemma finds_readKeyword : Finds readKeyword := by
  intro c p text t c' hst hrun
  replace hrun := get_inv hrun
  obtain ⟨w, c₁, hmatch, hrun⟩ := bind_inv hrun
  obtain ⟨ds, rfl, hst₁, hname, hds⟩ := matching_name_inv hst hmatch
  cases hkey : keyword? (String.ofList w) with
  | none =>
    rw [hkey] at hrun
    cases hrun
  | some k =>
    have hfound : ofKeyword k = t ∧ c' = c₁ := by
      rw [hkey] at hrun
      cases k <;> cases hrun <;> exact ⟨rfl, rfl⟩
    obtain ⟨rfl, rfl⟩ := hfound
    exact ⟨w, ds, rfl, hst₁, .keyword hname hkey hds⟩

/-- Where no keyword is found, the name that is found is none. -/
lemma fits_readBareName (hst : Stands c p text) (hkeyword : Recoverable (readKeyword c))
    (hrun : readBareName c = .ok t c') :
    ∃ cs ds, text = cs ++ ds ∧ Stands c' (p.after cs) ds ∧
      Fits (c.previous.map Located.value) t cs ds := by
  obtain ⟨w, c₁, hmatch, hpure⟩ := bind_inv hrun
  obtain ⟨ds, rfl, hst₁, hname, hds⟩ := matching_name_inv hst hmatch
  obtain ⟨rfl, rfl⟩ := pure_inv hpure
  refine ⟨w, ds, rfl, hst₁, .bareName hname ?_ hds⟩
  obtain ⟨f, c₁, hfail, -⟩ := hkeyword
  rw [readKeyword, get_bind, bind_of_ok hmatch] at hfail
  cases hkey : keyword? (String.ofList w) with
  | none => rfl
  | some k =>
    rw [hkey] at hfail
    cases k <;> cases hfail

/-! ## Quoted names -/

/-- Fixed text that is not found at a place does not begin there. -/
lemma not_prefix_of_exactly {s : List Char} {f : Failure} (hst : Stands c p text)
    (hrun : exactly s c.fork = .error f c') : ¬s <+: text := by
  rintro ⟨es, rfl⟩
  obtain ⟨a, c₁, hok, -⟩ := accepts_exactly (c.fork.previous.map Located.value) s es (c := c.fork)
    ⟨⟨hst.upcoming_eq, rfl⟩, calm_fork c⟩
  rw [hok] at hrun
  cases hrun

/-- Fixed text is not found anywhere before the place where it is looked for last. -/
lemma not_prefix_of_takeUntil {s : List Char} {a : List (Located Char)} (hst : Stands c p text)
    (hrun : takeUntil (exactly s) c = .ok a c') :
    ∃ cs ds, text = cs ++ ds ∧ Stands c' (p.after cs) ds ∧ a.map Located.value = cs ∧
      ∀ u, u <:+ cs → u ≠ [] → ¬s <+: u ++ ds := by
  induction hrun using takeUntil_induction generalizing p text with
  | found c b c₁ _ hm =>
    exact ⟨[], text, rfl, hst, rfl, fun u hu hne => absurd (List.suffix_nil.mp hu) hne⟩
  | pass c f c₁ item rest as c' _ _ hm hrest ih =>
    have hhere := not_prefix_of_exactly hst hm
    obtain ⟨d, ds, rfl, rfl, hst₁⟩ := hst.of_rest_eq hrest
    obtain ⟨cs, es, rfl, hst', rfl, hlater⟩ := ih hst₁
    refine ⟨item.value :: as.map Located.value, es, rfl, hst', rfl, fun u hu hne => ?_⟩
    rcases List.suffix_cons_iff.mp hu with rfl | hu
    · exact hhere
    · exact hlater u hu hne

lemma finds_readRawName : Finds readRawName := by
  intro c p text t c' hst hrun
  obtain ⟨opening, c₁, hmatch, hrun⟩ := bind_inv hrun
  obtain ⟨ds, rfl, hst₁, hlen, -⟩ := reads_matching _ hst hmatch
  obtain ⟨name, c₂, huntil, hrun⟩ := bind_inv hrun
  obtain ⟨_, es, rfl, hst₂, rfl, hnot⟩ := not_prefix_of_takeUntil hst₁ huntil
  obtain ⟨_, c₃, hclose, hpure⟩ := bind_inv hrun
  obtain ⟨_, fs, rfl, hst₃, rfl⟩ := reads_exactly _ hst₂ hclose
  obtain ⟨rfl, rfl⟩ := pure_inv hpure
  have hquoted : opening ++ name.map Located.value ++ '"' :: hashes (opening.length - 2) =
      quotedName (opening.length - 2) (name.map Located.value) := by
    nth_rewrite 1 [eq_of_rawOpening hlen]
    simp [quotedName, hashes]
  have hunclosed : Unclosed (opening.length - 2) (name.map Located.value) := by
    intro u hu hne hpre
    refine hnot u hu hne (hpre.trans ?_)
    rw [← List.append_assoc]
    exact List.prefix_append _ _
  refine ⟨quotedName (opening.length - 2) (name.map Located.value), fs, ?_, ?_,
    .quotedName fs hunclosed⟩
  · rw [← hquoted]
    simp [hashes]
  · rw [← hquoted, Position.after_append, Position.after_append]
    exact hst₃

/-! ## Numbers -/

/-- Digits, and perhaps a point with more digits. -/
def IsUnsigned (cs : List Char) : Prop :=
  ∃ whole fraction : List Char, whole ≠ [] ∧ (∀ c ∈ whole ++ fraction, c.isDigit = true) ∧
    cs = whole ++ if fraction = [] then [] else '.' :: fraction

lemma isUnsigned_of_runLength (hlen : Pattern.runLength Char.isDigit (cs ++ ds) = cs.length)
    (hne : cs ≠ []) : IsUnsigned cs := by
  refine ⟨cs, [], hne, ?_, by simp⟩
  rw [List.append_nil]
  exact mem_of_runLength hlen

lemma takeWhile_ne_nil_of_runLength {q : Char → Bool} (h : Pattern.runLength q cs ≠ 0) :
    cs.takeWhile q ≠ [] := by
  intro hnil
  refine h ?_
  rw [Pattern.runLength, hnil]
  rfl

/-- What is taken for a number without a sign. -/
lemma isUnsigned_of_unsignedLength? (h : unsignedLength? (cs ++ ds) = some cs.length) :
    IsUnsigned cs := by
  unfold unsignedLength? at h
  dsimp only at h
  split at h
  · cases h
  · rename_i hpos
    have hplain (hlen : Pattern.runLength Char.isDigit (cs ++ ds) = cs.length) : IsUnsigned cs :=
      isUnsigned_of_runLength hlen fun hnil => hpos (by rw [hlen, hnil]; rfl)
    split at h
    · rename_i es hdrop
      by_cases hzero : Pattern.runLength Char.isDigit es = 0
      · rw [if_pos hzero] at h
        exact hplain (Option.some.inj h)
      · rw [if_neg hzero] at h
        -- the digits, the point and the digits behind it are a front part as long as `cs`
        have hsplit := List.take_append_drop (Pattern.runLength Char.isDigit (cs ++ ds)) (cs ++ ds)
        rw [take_runLength, hdrop, ← List.takeWhile_append_dropWhile (p := Char.isDigit) (l := es),
          ← List.cons_append, ← List.append_assoc] at hsplit
        refine ⟨(cs ++ ds).takeWhile Char.isDigit, es.takeWhile Char.isDigit,
          takeWhile_ne_nil_of_runLength hpos, fun c hc => ?_, ?_⟩
        · rcases List.mem_append.mp hc with hc | hc
          · exact List.all_eq_true.mp List.all_takeWhile c hc
          · exact List.all_eq_true.mp List.all_takeWhile c hc
        · rw [if_neg (takeWhile_ne_nil_of_runLength hzero)]
          refine (List.append_inj hsplit.symm ?_).1
          have hlen := Option.some.inj h
          rw [List.length_append, List.length_cons, ← hlen]
          simp only [Pattern.runLength]
          omega
    · exact hplain (Option.some.inj h)

lemma exists_numeral (h : numberPattern.length? (cs ++ ds) = some cs.length) (hne : cs ≠ []) :
    ∃ n : Numeral, cs = n.text := by
  obtain ⟨c, es, rfl⟩ := List.exists_cons_of_ne_nil hne
  by_cases hc : c = '-'
  · subst hc
    obtain ⟨k, hk, hlen⟩ := Option.map_eq_some_iff.mp
      (show (unsignedLength? (es ++ ds)).map (· + 1) = some (es.length + 1) from h)
    rw [Nat.add_right_cancel hlen] at hk
    obtain ⟨whole, fraction, hwhole, hdigits, rfl⟩ := isUnsigned_of_unsignedLength? hk
    exact ⟨⟨true, whole, fraction, hwhole, hdigits⟩, rfl⟩
  · rw [List.cons_append, numberPattern] at h
    dsimp only at h
    split at h
    · rename_i heq
      exact absurd (List.cons.inj heq).1 hc
    · rw [← List.cons_append] at h
      obtain ⟨whole, fraction, hwhole, hdigits, heq⟩ := isUnsigned_of_unsignedLength? h
      exact ⟨⟨false, whole, fraction, hwhole, hdigits⟩, heq⟩

lemma finds_readNumber : Finds readNumber := by
  intro c p text t c' hst hrun
  replace hrun := get_inv hrun
  split at hrun
  · cases hrun
  · rename_i hglued
    obtain ⟨cs, c₁, hmatch, hrun⟩ := bind_inv hrun
    obtain ⟨ds, rfl, hst₁, hlen, hne⟩ := reads_matching _ hst hmatch
    replace hrun := get_inv hrun
    split at hrun
    · cases hrun
    · rename_i hnext
      obtain ⟨rfl, rfl⟩ := pure_inv hrun
      obtain ⟨n, rfl⟩ := exists_numeral hlen hne
      rw [ofNumberText_numeral]
      refine ⟨n.text, ds, rfl, hst₁, .number n (fun hnegative d hd => ?_) ⟨hlen, fun d hd => ?_⟩⟩
      · -- the text begins with the minus sign
        rw [hst.next?_eq, Numeral.text, Numeral.sign, if_pos hnegative] at hglued
        obtain ⟨item, hitem, rfl⟩ := Option.map_eq_some_iff.mp hd
        simpa [hitem] using hglued
      · rw [hst₁.next?_eq] at hnext
        rw [Option.mem_def] at hd
        simpa [hd] using hnext

/-- Where no number is found behind what is no operand, there is none. -/
lemma endsOperand_of_numeral {n : Numeral} (hst : Stands c p (n.text ++ ds))
    (hds : EndsNumber n ds) (hnumber : Recoverable (readNumber c.fork)) :
    ∃ d ∈ c.previous.map Located.value, endsOperand d = true := by
  by_contra hnone
  simp only [not_exists, not_and, Bool.not_eq_true] at hnone
  obtain ⟨t, c₁, hok, -⟩ := accepts_readNumber (c := c.fork) n (fun _ => hnone) hds
    ⟨⟨hst.upcoming_eq, rfl⟩, calm_fork c⟩
  obtain ⟨f, c₂, hfail, -⟩ := hnumber
  rw [hok] at hfail
  cases hfail

/-! ## Texts, operators, commas and white space -/

lemma finds_readText : Finds readText := by
  intro c p text t c' hst hrun
  obtain ⟨as, c₁, hdel, hpure⟩ := bind_inv hrun
  obtain ⟨rfl, rfl⟩ := pure_inv hpure
  obtain ⟨_, ds, rfl, hst₁, cs, rfl, hpieces⟩ :=
    reads_delimited (reads_many reads_readTextChar) hst hdel
  exact ⟨_, ds, rfl, hst₁, .text ds (unescapes_of_pieces hpieces)⟩

/-- Where no number is found, an operator may begin with a minus sign. -/
lemma fits_readOperator (hst : Stands c p text) (hnumber : Recoverable (readNumber c.fork))
    (hrun : readOperator c = .ok t c') :
    ∃ cs ds, text = cs ++ ds ∧ Stands c' (p.after cs) ds ∧
      Fits (c.previous.map Located.value) t cs ds := by
  obtain ⟨cs, c₁, hmatch, hpure⟩ := bind_inv hrun
  obtain ⟨ds, rfl, hst₁, hlen, hne⟩ := reads_matching _ hst hmatch
  obtain ⟨rfl, rfl⟩ := pure_inv hpure
  refine ⟨cs, ds, rfl, hst₁, .operator (mem_of_oneOrMore hlen) hne (not_head_of_oneOrMore hlen) ?_⟩
  intro n es heq hends
  rw [heq] at hst
  exact endsOperand_of_numeral hst hends hnumber

lemma finds_readComma : Finds readComma := by
  intro c p text t c' hst hrun
  obtain ⟨_, c₁, hexact, hpure⟩ := bind_inv hrun
  obtain ⟨_, ds, rfl, hst₁, rfl⟩ := reads_exactly _ hst hexact
  obtain ⟨rfl, rfl⟩ := pure_inv hpure
  exact ⟨[','], ds, rfl, hst₁, .comma ds⟩

lemma finds_readBlank : Finds readBlank := by
  intro c p text t c' hst hrun
  obtain ⟨cs, c₁, hmatch, hpure⟩ := bind_inv hrun
  obtain ⟨ds, rfl, hst₁, hlen, hne⟩ := reads_matching _ hst hmatch
  obtain ⟨rfl, rfl⟩ := pure_inv hpure
  exact ⟨cs, ds, rfl, hst₁, .blank (mem_of_oneOrMore hlen) hne (not_head_of_oneOrMore hlen)⟩

/-! ## The next token -/

/-- The next token fits where it is read, or it is a group. -/
lemma fits_or_group {contents : Option Nat → Parser Char (List (Located Token))}
    {t : Located Token} (hst : Stands c p text) (hrun : readToken contents c = .ok t c') :
    (∃ cs ds, text = cs ++ ds ∧ Stands c' (p.after cs) ds ∧ t.span = ⟨p, p.after cs⟩ ∧
      Fits (c.previous.map Located.value) t.value cs ds) ∨
    ∃ d, readGroup contents c.fork = .ok t.value d ∧ c'.fork = d.fork ∧
      t.span = ⟨p, c'.position⟩ := by
  obtain ⟨hchoice, hspan⟩ := readToken_inv hrun
  rw [hst.position_eq] at hspan
  have hsplit : choice ([readKeyword, readComma, readNumber, readText, readRawName] ++
      [readBareName, readOperator, readGroup contents, readBlank]) c = .ok t.value c' := hchoice
  obtain ⟨m, d, hm, hfork, hmem⟩ := choice_append_inv hsplit
  have hfits (h : ∃ cs ds, text = cs ++ ds ∧ Stands d (p.after cs) ds ∧
      Fits (c.previous.map Located.value) t.value cs ds) :
      ∃ cs ds, text = cs ++ ds ∧ Stands c' (p.after cs) ds ∧ t.span = ⟨p, p.after cs⟩ ∧
        Fits (c.previous.map Located.value) t.value cs ds := by
    obtain ⟨cs, ds, htext, hd, hfits⟩ := h
    have hst' := hd.of_fork_eq hfork
    exact ⟨cs, ds, htext, hst', by rw [hspan, hst'.position_eq], hfits⟩
  rcases hmem with hmem | ⟨hmem, hfirst⟩
  · have hfinds : ∀ m ∈ [readKeyword, readComma, readNumber, readText, readRawName], Finds m := by
      simp only [List.forall_mem_cons, List.not_mem_nil, false_implies, implies_true, and_true]
      exact ⟨finds_readKeyword, finds_readComma, finds_readNumber, finds_readText,
        finds_readRawName⟩
    exact .inl (hfits (hfinds m hmem (c := c.fork) hst.fork hm))
  · -- neither a keyword nor a number has been found before
    have hkeyword : Recoverable (readKeyword c.fork) := hfirst _ (by simp)
    have hnumber : Recoverable (readNumber c.fork) := hfirst _ (by simp)
    simp only [List.mem_cons, List.not_mem_nil, or_false] at hmem
    rcases hmem with rfl | rfl | rfl | rfl
    · exact .inl (hfits (fits_readBareName (c := c.fork) hst.fork hkeyword hm))
    · exact .inl (hfits (fits_readOperator (c := c.fork) hst.fork hnumber hm))
    · exact .inr ⟨d, hm, hfork, hspan⟩
    · exact .inl (hfits (finds_readBlank (c := c.fork) hst.fork hm))

end Formulary.Token
