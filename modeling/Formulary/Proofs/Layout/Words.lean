/-
# Written words read back

The tokens that the smallest parts of a written program are read as: names, literals, symbols,
commas, white space and the words that open blocks.  All of them are read as they were meant in
every block, as long as what follows does not run into them.
-/
import Formulary.Layout.Formula
import Formulary.Proofs.Token.Emission

namespace Formulary.Layout

open Text Word Parsing Token

variable {E : Option Nat} {p q : Option Char} {c : Char} {cs ds rest : List Char}
  {ts us : List Token}

/-! ## White space -/

/-- What begins with a character other than white space does not end a block. -/
lemma any_blockEnds_of_head (E : Option Nat) (h : ∀ c ∈ cs.head?, isBlank c = false) :
    E.any (blockEnds · cs) = false := by
  cases E with
  | none => rfl
  | some n => exact blockEnds_eq_false n h

/-- The text goes on with a character other than white space. -/
def Inked (cs : List Char) : Prop := ∃ c, cs.head? = some c ∧ isBlank c = false

lemma Inked.append (h : Inked cs) (ds : List Char) : Inked (cs ++ ds) := by
  obtain ⟨c, hc, hblank⟩ := h
  refine ⟨c, ?_, hblank⟩
  rw [List.head?_append, hc]
  rfl

lemma Inked.head (h : Inked cs) : ∀ c ∈ cs.head?, isBlank c = false := by
  obtain ⟨c, hc, hblank⟩ := h
  intro d hd
  rw [hc] at hd
  cases hd
  exact hblank

lemma Inked.ne_nil (h : Inked cs) : cs ≠ [] := by
  obtain ⟨c, hc, -⟩ := h
  rintro rfl
  cases hc

lemma emits_space (hrest : Inked rest) : Emits E p [' '] [Token.space] rest := by
  have hspace : ∀ c ∈ [' '], isBlank c = true := List.forall_mem_singleton.mpr (by decide)
  have hE : E.any (blockEnds · ([' '] ++ rest)) = false := by
    cases E with
    | none => rfl
    | some n =>
      rw [Option.any_some, blockEnds_append hspace hrest.head]
      rfl
  refine emits_token (by simp) hE rfl ?_
  refine (accepts_readToken_blank hspace (by simp) hrest.head).mono fun t r i hr => ⟨?_, hr.2⟩
  rw [hr.1]
  rfl

/-- The number of columns that a line at a depth is indented by. -/
lemma toList_newLine (depth : Nat) : (newLine depth).toList = '\n' :: spaces (2 * depth) := by
  simp [newLine, indent, spaces]

lemma isBlank_of_mem_line (k : Nat) : ∀ c ∈ '\n' :: spaces k, isBlank c = true := by
  intro c hc
  rcases List.mem_cons.mp hc with rfl | hc
  · decide
  · exact isBlank_of_mem_spaces hc

lemma blockEnds_line (n k : Nat) (hrest : Inked rest) :
    blockEnds n ('\n' :: spaces k ++ rest) = decide (k < n) := by
  have hline : lastLine ('\n' :: spaces k) = spaces k :=
    (lastLine_append [] _).trans (lastLine_spaces k)
  rw [blockEnds_append (isBlank_of_mem_line k) hrest.head, hline, indentation_spaces,
    decide_eq_false hrest.ne_nil]
  simp

/-- A line break, where the next line still belongs to the block. -/
lemma emits_line {k : Nat} (hE : E.getD 0 ≤ k) (hrest : Inked rest) :
    Emits E p ('\n' :: spaces k) [lineBreak] rest := by
  have hends : E.any (blockEnds · ('\n' :: spaces k ++ rest)) = false := by
    cases E with
    | none => rfl
    | some n =>
      rw [Option.any_some, blockEnds_line n k hrest]
      exact decide_eq_false (Nat.not_lt.mpr hE)
  refine emits_token (by simp) hends rfl ?_
  refine (accepts_readToken_blank (isBlank_of_mem_line k) (by simp) hrest.head).mono
    fun t r i hr => ⟨?_, hr.2⟩
  rw [hr.1]
  simp [ofBlank, bare]

/-- The line break at the end of a program. -/
lemma emits_lastLine : Emits none p ['\n'] [lineBreak] [] := by
  refine emits_token (by simp) rfl rfl ?_
  refine (accepts_readToken_blank (isBlank_of_mem_line 0) (by simp) (by simp)).mono
    fun t r i hr => ⟨?_, hr.2⟩
  rw [hr.1]
  rfl

/-! ## Names -/

/-- Whether a name is written in quotes. -/
def isQuoted (n : String) : Bool := !(isBareName n && !isReserved n)

lemma toList_name (n : String) : (name n).toList =
    if isQuoted n then quotedName (closingHashes n.toList) n.toList else n.toList := by
  unfold name isQuoted
  cases isBareName n && !isReserved n with
  | true => rfl
  | false => simp [quotedName, hashes]

lemma opensBlock_name (n : String) : (ident n (isQuoted n)).opensBlock = false := by
  have hword (w : String) (hw : w ∈ reserved) : (ident n (isQuoted n)).isWord w = false := by
    rw [isWord, Bool.and_eq_false_iff]
    by_cases hn : n = w
    · right
      subst hn
      rw [isQuoted, isReserved, List.contains_iff_mem.mpr hw]
      simp
    · left
      exact beq_false_of_ne hn
  rw [opensBlock, hword "where" (by decide), hword "switch" (by decide)]
  rfl

lemma inked_of_isBareName {n : String} (h : isBareName n = true) : Inked n.toList := by
  obtain ⟨c, cs, hn, hc, -⟩ := exists_of_isBareName h
  exact ⟨c, by rw [hn]; rfl, not_isBlank_of_isNameStart hc⟩

lemma inked_quotedName (k : Nat) (n : List Char) : Inked (quotedName k n) :=
  ⟨'r', rfl, by decide⟩

lemma inked_name (n : String) : Inked (name n).toList := by
  rw [toList_name]
  split
  · exact inked_quotedName _ _
  · rename_i h
    simp only [isQuoted, Bool.not_eq_true, Bool.not_eq_false', Bool.and_eq_true] at h
    exact inked_of_isBareName h.1

/-- A quoted name is never taken for a reserved word. -/
lemma isName_isQuoted (n : String) : isQuoted n = true ∨ isReserved n = false := by
  cases hr : isReserved n with
  | false => exact .inr rfl
  | true =>
    left
    simp [isQuoted, hr]

/-- A written name is the next token, whatever was passed before it. -/
lemma accepts_readToken_name {contents : Option Nat → Parser Char (List (Located Token))}
    (n : String) (hrest : Stops rest) :
    Accepts (Around p ((name n).toList ++ rest)) (readToken contents) fun t r i =>
      t.value = ident n (isQuoted n) ∧ Around (lastOf p (name n).toList) rest r i := by
  rw [toList_name]
  cases hq : isQuoted n with
  | true =>
    rw [if_pos rfl]
    exact accepts_readToken_quotedName (unclosed_of_closingHashes_le (Nat.le_refl _))
  | false =>
    simp only [isQuoted, Bool.not_eq_false', Bool.and_eq_true] at hq
    have hreserved : isReserved n = false := by simpa using hq.2
    rw [if_neg Bool.false_ne_true]
    exact accepts_readToken_bareName hq.1 (keyword?_of_not_reserved hreserved) hrest

/-- A written name is read as that name. -/
lemma emits_name (n : String) (hrest : Stops rest) :
    Emits E p (name n).toList [ident n (isQuoted n)] rest := by
  refine emits_token (inked_name n).ne_nil
    (any_blockEnds_of_head E ((inked_name n).append rest).head) (opensBlock_name n) ?_
  refine (accepts_readToken_name n hrest).mono fun t r i hr => ⟨?_, hr.2⟩
  rw [hr.1, bare]

/-! ## Literals -/

lemma emits_keyword {w : String} {k : Keyword} (h : isBareName w = true)
    (hkey : keyword? w = some k) (hrest : Stops rest) :
    Emits E p w.toList [ofKeyword k] rest := by
  have hinked := inked_of_isBareName h
  refine emits_token hinked.ne_nil (any_blockEnds_of_head E (hinked.append rest).head) ?_ ?_
  · cases k <;> rfl
  · refine (accepts_readToken_keyword h hkey hrest).mono fun t r i hr => ⟨?_, hr.2⟩
    rw [hr.1]
    cases k <;> rfl

lemma emits_null (hrest : Stops rest) : Emits E p "null".toList [Token.null] rest :=
  emits_keyword (k := .null) (by decide) (by decide) hrest

lemma emits_bool (b : Bool) (hrest : Stops rest) :
    Emits E p (bool b).toList [Token.bool b] rest := by
  cases b with
  | true => exact emits_keyword (k := .bool true) (by decide) (by decide) hrest
  | false => exact emits_keyword (k := .bool false) (by decide) (by decide) hrest

/-- The character before a number is not the end of an operand. -/
def Opens (p : Option Char) : Prop := ∀ c ∈ p, endsOperand c = false

lemma inked_numeral (n : Numeral) : Inked n.text := by
  unfold Numeral.text Numeral.sign
  cases n.negative with
  | true => exact ⟨'-', rfl, by decide⟩
  | false =>
    cases hwhole : n.whole with
    | nil => exact absurd hwhole n.whole_ne_nil
    | cons d whole =>
      exact ⟨d, rfl, not_isBlank_of_isDigit (n.isDigit_of_mem d (by simp [hwhole]))⟩

lemma emits_numeral (n : Numeral) (hp : Opens p) (hrest : Stops rest) :
    Emits E p n.text [ofNumeral n] rest := by
  refine emits_token (inked_numeral n).ne_nil
    (any_blockEnds_of_head E ((inked_numeral n).append rest).head) rfl ?_
  refine (accepts_readToken_number n (fun _ => hp) hrest).mono fun t r i hr => ⟨?_, hr.2⟩
  rw [hr.1, ofNumeral, bare]

lemma toList_text (v : String) :
    (text v).toList = '"' :: doubleBackslashes v.toList ++ ['"'] := by simp [text]

lemma emits_text {v : String} (hv : '"' ∉ v.toList) :
    Emits E p (text v).toList [Token.text v] rest := by
  have hread : Accepts (Around p ('"' :: doubleBackslashes v.toList ++ '"' :: rest))
      (readToken readTokens) _ := accepts_readToken_text (unescapes_doubleBackslashes hv)
  have hsplit : '"' :: doubleBackslashes v.toList ++ '"' :: rest = (text v).toList ++ rest := by
    simp [text]
  have hlast : lastOf p (text v).toList = some '"' := by simp [text]
  rw [hsplit, ← hlast] at hread
  refine emits_token (by simp [text]) (any_blockEnds_of_head E ?_) rfl ?_
  · rw [toList_text]
    intro c hc
    cases hc
    decide
  · refine hread.mono fun t r i hr => ⟨?_, hr.2⟩
    rw [hr.1, bare]

/-! ## Symbols -/

lemma inked_symbol {s : String} (hs : ∀ c ∈ s.toList, isOperatorChar c = true)
    (hne : s.toList ≠ []) : Inked s.toList := by
  cases hcons : s.toList with
  | nil => exact absurd hcons hne
  | cons c cs => exact ⟨c, rfl, not_isBlank_of_isOperatorChar (hs c (by simp [hcons]))⟩

lemma emits_symbol {s : String} (hs : ∀ c ∈ s.toList, isOperatorChar c = true)
    (hne : s.toList ≠ []) (hrest : ∀ c ∈ rest.head?, isOperatorChar c = false ∧ c.isDigit = false) :
    Emits E p s.toList [Token.operator s] rest := by
  have hinked := inked_symbol hs hne
  refine emits_token hne (any_blockEnds_of_head E (hinked.append rest).head) rfl ?_
  refine (accepts_readToken_operator hs hne hrest).mono fun t r i hr => ⟨?_, hr.2⟩
  rw [hr.1, bare]

lemma emits_comma : Emits E p [','] [Token.comma] rest := by
  refine emits_token (by simp) (any_blockEnds_of_head E ?_) rfl ?_
  · intro c hc
    cases hc
    decide
  · refine accepts_readToken_comma.mono fun t r i hr => ⟨?_, hr.2⟩
    rw [hr.1, bare]

/-! ## Groups and blocks -/

/-- A group around a row that fills it. -/
lemma emits_group {kind : GroupKind} {o q : Char} (hkind : kind.delimiters = some (o, q))
    (h : Emits none (some o) cs ts (q :: rest)) :
    Emits E p (o :: cs ++ [q]) [grouped kind ts] rest := by
  have hshuts : Shuts (q :: rest) := by
    refine shuts_cons ?_
    cases kind <;> cases hkind <;> decide
  have hrow : IsRow none (some o) (cs ++ q :: rest) (ts ++ []) (lastOf (some o) cs) (q :: rest) :=
    h (isRow_nil (.inr hshuts))
  rw [List.append_nil] at hrow
  have hread := accepts_readToken_group (p := p) hkind hrow.accepts
  have hsplit : o :: cs ++ q :: rest = o :: cs ++ [q] ++ rest := by simp
  have hlast : lastOf p (o :: cs ++ [q]) = some q := by simp
  rw [hsplit, ← hlast] at hread
  refine emits_token (by simp) (any_blockEnds_of_head E ?_) rfl hread
  intro c hc
  cases hc
  cases kind <;> cases hkind <;> decide

/-- The block of depth `d + 1` ends in front of `rest`, and so do all deeper ones. -/
def Leaves (d : Nat) (rest : List Char) : Prop := Shuts rest ∨ ∀ n, 2 * d < n → blockEnds n rest = true

lemma Leaves.deeper {d : Nat} (h : Leaves d rest) : Leaves (d + 1) rest :=
  h.imp id fun hends n hn => hends n (by omega)

/-- A word with lines below it, which are indented one step deeper. -/
lemma emits_opened {w : String} {d : Nat} (hword : w ∈ ["where", "switch"])
    (hE : E.getD 0 ≤ 2 * d) (hcs : Inked cs) (hrest : Leaves d rest)
    (h : Emits (some (2 * (d + 1))) (some ' ') cs ts rest) :
    Emits E p (w.toList ++ ((newLine (d + 1)).toList ++ cs))
      [ident w false, grouped .indented ts, lineBreak] rest := by
  have hall : ∀ w ∈ ["where", "switch"],
      isBareName w = true ∧ keyword? w = none ∧ (ident w false).opensBlock = true := by decide
  obtain ⟨hbare, hkey, hopens⟩ := hall w hword
  have hspaces : lastOf (some '\n') (spaces (2 * (d + 1))) = some ' ' := by
    have hsplit : spaces (2 * (d + 1)) = spaces (2 * d + 1) ++ [' '] := List.replicate_succ'
    rw [hsplit, lastOf_append]
    rfl
  have hends : (some (2 * (d + 1))).any (blockEnds · rest) = true ∨ Shuts rest :=
    hrest.symm.imp (fun hends => hends _ (by omega)) id
  have hrow : IsRow (some (2 * (d + 1))) (some ' ') (cs ++ rest) (ts ++ []) (lastOf (some ' ') cs)
      rest := h (isRow_nil hends)
  rw [List.append_nil] at hrow
  have hlast : lastOf p (w.toList ++ '\n' :: (spaces (2 * (d + 1)) ++ cs)) = lastOf (some ' ') cs := by
    rw [lastOf_append, lastOf_cons, lastOf_append, hspaces]
  have hinked := inked_of_isBareName hbare
  rw [toList_newLine]
  refine emits_block hopens (any_blockEnds_of_head E (hinked.append _).head) ?_ (by omega)
    (hcs.append rest).ne_nil (hcs.append rest).head (by rwa [hspaces, hlast])
  refine (accepts_readToken_bareName hbare hkey (stops_cons (by decide))).mono
    fun t r i hr => ⟨?_, hr.2⟩
  rw [hr.1, bare]

/-- A switch without cases, on one line. -/
lemma emits_emptySwitch : Emits E p "switch \x7b\x7d".toList
    [ident "switch" false, Token.space, grouped .braces []] rest := by
  have hword : Emits E p "switch".toList [ident "switch" false] (" \x7b\x7d".toList ++ rest) := by
    refine emits_word (by decide) (any_blockEnds_of_head E (by simp; decide))
      ⟨'\x7b', '\x7d' :: rest, rfl, by decide⟩ ?_
    refine (accepts_readToken_bareName (n := "switch") (by decide) (by decide)
      (stops_cons (by decide))).mono fun t r i hr => ⟨?_, hr.2⟩
    rw [hr.1, bare]
  have hgroup : Emits E (some ' ') "\x7b\x7d".toList [grouped .braces []] rest :=
    emits_group rfl emits_nil
  exact hword.append ((emits_space ⟨'\x7b', rfl, by decide⟩).append hgroup)

end Formulary.Layout
