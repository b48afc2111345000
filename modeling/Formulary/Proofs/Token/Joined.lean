/-
# A text below another one

The tokens of a text, a line feed and a second text are those of the first text, a line break and
those of the second text, if the second text does not begin with white space.  The white space at
the end of the first text becomes a part of the line break, so places behind it settle in front of
it.  The places of the second text move to the lines below.
-/
import Mathlib.Data.List.DropRight
import Formulary.Proofs.Token.Continued

namespace Formulary

open Text Word Parsing

/-! ## Places -/

/-- The text without the white space at its end. -/
def Text.trimmed (text : List Char) : List Char := text.rdropWhile isBlank

lemma Text.trimmed_append (text : List Char) : trimmed text ++ text.rtakeWhile isBlank = text :=
  List.rdropWhile_append_rtakeWhile

lemma Text.isBlank_of_mem_rtakeWhile {text : List Char} {a : Char}
    (h : a ∈ text.rtakeWhile isBlank) : isBlank a = true := by
  rw [List.rtakeWhile, List.mem_reverse] at h
  exact List.all_eq_true.mp List.all_takeWhile a h

/-- The place, or that behind the last character that is not white space if that comes first. -/
def Text.settle (text : List Char) (p : Position) : Position :=
  if (Position.after {} (trimmed text)).byte ≤ p.byte then Position.after {} (trimmed text) else p

/-- A place in a text that begins on the line below `q`. -/
def Text.Position.below (q p : Position) : Position :=
  ⟨q.byte + 1 + p.byte, q.line + p.line, p.column⟩

variable {text : List Char} {q : Position}

lemma Text.Position.below_advance (q p : Position) (c : Char) :
    q.below (p.advance c) = (q.below p).advance c := by
  simp only [below, advance]
  split <;> simp [Nat.add_assoc]

lemma keepsHulls_below (q : Position) : KeepsHulls q.below := by
  refine keepsHulls_of_monotone (fun x y hxy => Nat.add_le_add_left hxy _) fun x y hyx hxy => ?_
  exact absurd (Nat.le_of_add_le_add_left hxy) (Nat.not_le_of_lt hyx)

lemma keepsHulls_settle (text : List Char) : KeepsHulls (settle text) := by
  refine keepsHulls_of_monotone (fun x y hxy => ?_) fun x y hyx hxy => ?_
  · unfold settle
    split <;> split <;> omega
  · unfold settle at hxy ⊢
    by_cases hy : (Position.after {} (trimmed text)).byte ≤ y.byte
    · rw [if_pos hy, if_pos (hy.trans hyx.le)]
    · rw [if_neg hy] at hxy
      split at hxy <;> omega

lemma keepsHulls_id : KeepsHulls id := fun _ _ => rfl

/-- In front of the white space at the end, no place moves. -/
lemma Text.settle_of_front {pre : List Char} (h : pre <+: trimmed text) :
    settle text (Position.after {} pre) = Position.after {} pre := by
  obtain ⟨cs, hcs⟩ := h
  rw [settle, ← hcs]
  split
  · rename_i hle
    cases cs with
    | nil => rw [List.append_nil]
    | cons c cs =>
      have hlt : (Position.after {} pre).byte < ((Position.after {} pre).after (c :: cs)).byte :=
        byte_lt_after (by simp)
      rw [Position.after_append] at hle
      omega
  · rfl

lemma Text.settle_after : settle text (Position.after {} text) = Position.after {} (trimmed text) := by
  rw [settle, if_pos]
  have hsplit := trimmed_append text
  rw [← hsplit, Position.after_append, Position.after_byte (Position.after {} (trimmed text)), hsplit]
  exact Nat.le_add_right _ _

namespace Token

variable {E : Option Nat} {c c' d d' : Cursor Char} {cs ds z : List Char} {x : Position}

/-! ## White space at the ends of rows -/

/-- White space in a row is one token. -/
lemma readSteps_append (hcs : ∀ c ∈ cs, isBlank c = true) (hne : cs ≠ [])
    (hds : ∀ d ∈ ds.head?, isBlank d = false) (hE : E.any (blockEnds · (cs ++ ds)) = false)
    (hst : Stands c x (cs ++ ds)) (hc : c.Calm) :
    ∃ c', Stands c' (x.after cs) ds ∧ c'.Calm ∧ c'.previous.any (endsOperand ·.value) = false ∧
      readSteps E c =
        Outcome.prepend [⟨ofBlank cs, ⟨x, x.after cs⟩⟩] (readSteps E c') := by
  obtain ⟨t, c₁, htoken, ht, hst₁, hprevious, hc₁⟩ := exists_of_accepts
    (accepts_readToken_blank (p := c.fork.previous.map Located.value) hcs hne hds)
    (reads_readToken reads_readTokens) hst.fork rfl (calm_fork c)
  obtain ⟨-, hspan⟩ := readToken_inv htoken
  rw [hst.fork.position_eq, hst₁.position_eq] at hspan
  obtain ⟨t, span⟩ := t
  subst ht hspan
  refine ⟨c.adopt c₁, hst₁.adopt c, hc.adopt hc₁, ?_, ?_⟩
  · -- white space ends no operand
    have hlast : (lastOf (c.fork.previous.map Located.value) cs).any endsOperand = false := by
      cases cs with
      | nil => exact absurd rfl hne
      | cons a cs =>
        exact any_lastOf_blank (p := some a)
          (endsOperand_of_isBlank (hcs a List.mem_cons_self))
          fun b hb => hcs b (List.mem_cons_of_mem _ hb)
    have hsame : (c.adopt c₁).fork.previous = c₁.fork.previous :=
      congrArg Cursor.previous (fork_adopt c c₁)
    rw [← hprevious, Option.any_map] at hlast
    rwa [show (c.adopt c₁).previous = c₁.previous from hsame]
  · refine readSteps_cons hst hE htoken ?_
    show (ofBlank cs).opensBlock = false
    unfold ofBlank
    split <;> rfl

/-- The tokens of white space: none, or one, which is a line break only outside blocks. -/
def BlankRow (E : Option Nat) (ts : List (Located Token)) : Prop :=
  ts = [] ∨ ∃ t span, ts = [⟨t, span⟩] ∧ (t = .space ∨ t = .lineBreak ∧ E = none)

/-- White space at the end of the text ends every row; it is a part of a block only if it does not
go on to another line. -/
lemma readSteps_blank (hz : ∀ c ∈ z, isBlank c = true) (hst : Stands c x z) (hc : c.Calm)
    {rows : List (List (Located Token))} (hrun : readSteps E c = .ok rows c') :
    c'.Calm ∧ (E ≠ none ∧ Stands c' x z ∨ Stands c' (x.after z) []) ∧
      BlankRow E rows.flatten := by
  cases hends : E.any (blockEnds · c.upcoming) with
  | true =>
    rw [readSteps_of_blockEnds hends] at hrun
    cases hrun
    refine ⟨hc, .inl ⟨?_, hst⟩, .inl rfl⟩
    rintro rfl
    cases hends
  | false =>
    by_cases hne : z = []
    · subst hne
      obtain ⟨c₁, hnone, hfork, hc₁⟩ := readSteps_nil E hst hc
      rw [hnone] at hrun
      cases hrun
      have hst₁ : Stands c'.fork x [] := by
        rw [hfork]
        exact hst.fork
      exact ⟨hc₁, .inr ⟨hst₁.rest_eq, hst₁.stop_eq⟩, .inl rfl⟩
    · rw [hst.upcoming_eq, ← List.append_nil z] at hends
      -- all of it is one token, behind which nothing is left
      obtain ⟨c₁, hst₁, hc₁, -, hmore⟩ := readSteps_append hz hne (by rintro d ⟨⟩) hends
        (by rwa [List.append_nil]) hc
      obtain ⟨c₂, hnone, hfork, hc₂⟩ := readSteps_nil E hst₁ hc₁
      rw [hmore, hnone] at hrun
      cases hrun
      have hst₂ : Stands c'.fork (x.after z) [] := by
        rw [hfork]
        exact hst₁.fork
      refine ⟨hc₂, .inr ⟨hst₂.rest_eq, hst₂.stop_eq⟩, .inr ⟨_, _, rfl, ?_⟩⟩
      unfold ofBlank
      split
      · rename_i hline
        refine .inr ⟨rfl, ?_⟩
        cases E with
        | none => rfl
        | some r =>
          rw [Option.any_some, blockEnds_append hz (by rintro d ⟨⟩), hline] at hends
          cases hends
      · exact .inl rfl

/-! ## The two texts -/

variable {P Q : List Char} {ps qs : List (Located Token)}

/-- The second text is read alike on the lines below. -/
lemma concludes_below (q : Position) (text : List Char) :
    Concludes q.below text [] [] (· = []) where
  advance pre c t _ := by
    rw [Position.after_append]
    exact Position.below_advance q _ c
  last := by rw [List.append_nil]
  blank := by rintro c ⟨⟩
  gapped := by rintro c ⟨⟩
  solid := .inl ⟨rfl, rfl⟩
  shallow := .inl rfl
  ends E c d rows c' _ hcd hrun := by
    obtain ⟨hd, hc⟩ := hcd.related
    rw [List.append_nil, or_self] at hc
    obtain ⟨c₁, hnone, hfork, hc₁⟩ := readSteps_nil E (c := c) ⟨hc.rest_eq, hc.stop_eq⟩ hcd.calm
    obtain ⟨d₁, hnone', hfork', hd₁⟩ := readSteps_nil E (c := d) ⟨hd.rest_eq, hd.stop_eq⟩ hcd.calm'
    rw [hnone] at hrun
    cases hrun
    refine ⟨[], d₁, hnone', ⟨?_, hc₁, hd₁⟩, [], ?_, .done⟩
    · rw [hfork, hfork']
      cases E with
      | none => exact ⟨hc.rest_eq, hd.rest_eq⟩
      | some r => exact ⟨hd, .inl hc⟩
    · cases E <;> rfl

/-- What comes after the first text: a line break, and the tokens of the second. -/
def Below (q : Position) (qs vs : List (Located Token)) : Prop :=
  ∃ us span, vs = ⟨.lineBreak, span⟩ :: us ∧ RowsMeet q.below id [] qs us

lemma exists_rows_of_ofText {tokens : List (Located Token)} (h : Token.ofText text = .ok tokens) :
    ∃ rows c', readSteps none (Cursor.ofText text) = .ok rows c' ∧ c'.rest = [] ∧
      tokens = rows.flatten := by
  unfold Token.ofText at h
  cases hrun : readTokens none (Cursor.ofText text) with
  | error f c =>
    rw [hrun] at h
    cases h
  | ok ts c =>
    rw [hrun] at h
    obtain ⟨rows, hrows, rfl⟩ := readTokens_inv hrun
    dsimp only at h
    split at h
    · rename_i hend
      cases h
      exact ⟨rows, c, hrows, List.isEmpty_iff.mp hend, rfl⟩
    · cases h

/-- A row of a text that is read to the end is followed to the end. -/
lemma RowFollowed.of_rest_eq_nil {φ : Position → Position} {text z z' : List Char}
    {more : List (Located Token) → Prop} {rows : List (List (Located Token))}
    (h : RowFollowed φ text z z' more none c d) (hrun : readSteps none c = .ok rows c')
    (hend : c'.rest = []) :
    ∃ rows' d', readSteps none d = .ok rows' d' ∧ d'.rest = [] ∧ d'.Calm ∧
      ∃ vs, more vs ∧ RowsMeet φ id vs rows.flatten rows'.flatten := by
  rcases h rows c' hrun with ⟨⟨a, -, hnext⟩, -⟩ | ⟨rows', d', hrun', ⟨hcd, -⟩ | ⟨hcd, hrows⟩⟩
  · rw [Cursor.next?, hend] at hnext
    cases hnext
  · obtain ⟨pre, t, -, hne, hbeside⟩ := hcd.related.of_fork
    have hlength := hbeside.left.length_rest
    rw [hend, List.length_append] at hlength
    exact absurd (List.length_eq_zero_iff.mp (Nat.eq_zero_of_add_eq_zero hlength.symm).1) hne
  · exact ⟨rows', d', hrun', hcd.related.2, hcd.calm', hrows⟩

/-- In front of the second text its row is read like the row of the second text. -/
lemma exists_below (hQ : Token.ofText Q = .ok qs) {q : Position} (hst : Stands c (q.below {}) Q)
    (hc : c.Calm) (hprevious : c.previous.any (endsOperand ·.value) = false) :
    ∃ rows c', readSteps none c = .ok rows c' ∧ c'.rest = [] ∧ c'.Calm ∧
      RowsMeet q.below id [] qs rows.flatten := by
  obtain ⟨rows, e, hrun, hend, rfl⟩ := exists_rows_of_ofText hQ
  have halong : Along q.below Q [] [] (Cursor.ofText Q).fork c.fork := by
    refine ⟨[], Q, rfl, ?_, ?_, hprevious.symm⟩
    · rw [List.append_nil]
      exact (stands_ofText Q).fork
    · rw [List.append_nil]
      exact hst.fork
  have hfollowed := (concludes_below q Q).followed (E := none) (by simp)
    ⟨halong, fun f hf => (by cases hf), hc⟩
  obtain ⟨rows', c', hrun', hend', hcalm, _, rfl, hrows⟩ := hfollowed.of_rest_eq_nil hrun hend
  exact ⟨rows', c', hrun', hend', hcalm, hrows⟩

/-- The white space in front of the second text. -/
lemma isBlank_of_mem_gap : ∀ a ∈ P.rtakeWhile isBlank ++ ['\n'], isBlank a = true := by
  intro a ha
  rcases List.mem_append.mp ha with ha | ha
  · exact isBlank_of_mem_rtakeWhile ha
  · rw [List.mem_singleton.mp ha]
    decide

/-- The white space at the end of the first text, the line feed and the second text. -/
lemma gap_append : P.rtakeWhile isBlank ++ '\n' :: Q = (P.rtakeWhile isBlank ++ ['\n']) ++ Q := by
  simp

lemma gap_contains : (P.rtakeWhile isBlank ++ ['\n']).contains '\n' = true := by simp

/-- The line feed comes after the first text as white space does. -/
lemma prolongs_settle (P Q : List Char) :
    Prolongs (settle P) (trimmed P) (P.rtakeWhile isBlank)
      (P.rtakeWhile isBlank ++ '\n' :: Q) where
  advance pre c t htext := by
    have hprefix : pre ++ [c] <+: trimmed P := ⟨t, by rw [htext, List.append_assoc]; rfl⟩
    rw [settle_of_front hprefix, settle_of_front ((List.prefix_append pre [c]).trans hprefix),
      Position.after_append]
    rfl
  last := by rw [trimmed_append, settle_after, settle_of_front (List.prefix_refl _)]
  blank _ := isBlank_of_mem_rtakeWhile
  gapped c hc := by
    refine isBlank_of_mem_gap (P := P) c ?_
    rw [gap_append, List.head?_append_of_ne_nil _ (by simp)] at hc
    exact List.mem_of_mem_head? hc
  solid := by
    refine .inr fun t ht hne => ?_
    have hlast : trimmed P ≠ [] := by
      rintro hnil
      rw [hnil, List.suffix_nil] at ht
      exact hne ht
    refine ⟨t.getLast hne, List.getLast_mem hne, ?_⟩
    rw [ht.getLast hne]
    exact Bool.eq_false_iff.mpr (List.rdropWhile_last_not isBlank P hlast)

/-- At the end of the first text its row is at its end, but for white space. -/
lemma readSteps_trailing {rows : List (List (Located Token))} (hc : c.Calm)
    (hst : Stands c (Position.after {} (trimmed P)) (P.rtakeWhile isBlank) ∨
      Stands c (Position.after {} (trimmed P ++ P.rtakeWhile isBlank)) [])
    (hrun : readSteps E c = .ok rows c') :
    c'.Calm ∧ (E ≠ none ∧ Stands c' (Position.after {} (trimmed P)) (P.rtakeWhile isBlank) ∨
      Stands c' (Position.after {} P) []) ∧ BlankRow E rows.flatten := by
  rw [trimmed_append] at hst
  rcases hst with hst | hst
  · have hblank := readSteps_blank (fun a => isBlank_of_mem_rtakeWhile) hst hc hrun
    rwa [← Position.after_append, trimmed_append] at hblank
  · obtain ⟨hcalm, hplace, hrows⟩ := readSteps_blank (by rintro a ⟨⟩) hst hc hrun
    exact ⟨hcalm, .inr (hplace.elim And.right id), hrows⟩

/-- A row of white space meets what follows in the second text. -/
lemma BlankRow.meets {φ : Position → Position} {us vs : List (Located Token)} {span : Span}
    (h : BlankRow none vs) :
    RowsMeet φ id (⟨.lineBreak, span⟩ :: us) vs (⟨.lineBreak, span⟩ :: us) := by
  rcases h with hnil | ⟨t, _, hrow, ht⟩
  · rw [hnil]
    exact .done
  · rw [hrow]
    exact .blank (ht.imp_right fun h => ⟨h.1, by simp⟩)

/-- In a block, the row of white space meets an empty row. -/
lemma BlankRow.meets_nil {φ : Position → Position} {r : Nat} {vs : List (Located Token)}
    (h : BlankRow (some r) vs) : RowsMeet φ id [] vs [] := by
  rcases h with hnil | ⟨t, span, hrow, ht⟩
  · rw [hnil]
    exact .done
  · rw [hrow]
    exact .blank (.inl (ht.resolve_right (by simp)))

/-- The line feed ends every block. -/
lemma blockEnds_gap (hstart : ∀ a ∈ Q.head?, isBlank a = false) {r : Nat} (hr : 0 < r)
    (hst : Stands d x (P.rtakeWhile isBlank ++ '\n' :: Q)) :
    (some r).any (blockEnds · d.upcoming) = true := by
  rw [Option.any_some, hst.upcoming_eq, gap_append, blockEnds_append isBlank_of_mem_gap hstart,
    gap_contains, lastLine_append]
  simpa [lastLine, indentation] using .inr hr

/-- Outside blocks, the row goes on with a line break and the second text. -/
lemma readSteps_gap (hQ : Token.ofText Q = .ok qs)
    (hstart : ∀ a ∈ Q.head?, isBlank a = false) (hd : d.Calm)
    (hst : Stands d (Position.after {} (trimmed P)) (P.rtakeWhile isBlank ++ '\n' :: Q)) :
    ∃ rows d' span us, readSteps none d = .ok rows d' ∧ d'.rest = [] ∧ d'.Calm ∧
      rows.flatten = ⟨.lineBreak, span⟩ :: us ∧
      RowsMeet (Position.after {} P).below id [] qs us := by
  rw [gap_append] at hst
  obtain ⟨d₁, hd₁, hcalm₁, hprevious, hmore⟩ := readSteps_append (E := none)
    isBlank_of_mem_gap (by simp) hstart rfl hst hd
  have hplace : (Position.after {} (trimmed P)).after (P.rtakeWhile isBlank ++ ['\n']) =
      (Position.after {} P).below {} := by
    rw [← Position.after_append, ← List.append_assoc, trimmed_append, Position.after_append]
    rfl
  rw [hplace] at hd₁ hmore
  obtain ⟨rows, d', hrun, hend, hcalm, hmeet⟩ := exists_below hQ hd₁ hcalm₁ hprevious
  rw [hrun, ofBlank, if_pos gap_contains] at hmore
  exact ⟨_, d', _, rows.flatten, hmore, hend, hcalm, rfl, hmeet⟩

/-- The first text is read alike in front of a line feed and the second text. -/
lemma concludes_settle (P : List Char) (hQ : Token.ofText Q = .ok qs)
    (hstart : ∀ a ∈ Q.head?, isBlank a = false) :
    Concludes (settle P) (trimmed P) (P.rtakeWhile isBlank) (P.rtakeWhile isBlank ++ '\n' :: Q)
      (Below (Position.after {} P) qs) where
  toProlongs := prolongs_settle P Q
  shallow := by
    refine .inr ?_
    rw [gap_append, takeWhile_isBlank isBlank_of_mem_gap hstart, lastLine_append]
    rfl
  ends E c d rows c' hE hcd hrun := by
    obtain ⟨hd, hc⟩ := hcd.related
    obtain ⟨hcalm, hplace, hrows⟩ := readSteps_trailing hcd.calm
      (hc.imp (fun h => ⟨h.rest_eq, h.stop_eq⟩) fun h => ⟨h.rest_eq, h.stop_eq⟩) hrun
    cases E with
    | some r =>
      -- the second text begins in column one, which ends every block
      have hends := blockEnds_gap hstart (hE r rfl) hd
      refine ⟨[], d, readSteps_of_blockEnds hends, ⟨⟨hd, ?_⟩, hcalm, hcd.calm'⟩, [], rfl,
        hrows.meets_nil⟩
      rw [trimmed_append]
      exact hplace.imp (fun h => h.2.fork) Stands.fork
    | none =>
      rw [settle_of_front (List.prefix_refl _)] at hd
      obtain ⟨rows', d', span, us, hrun', hend', hcalm', hflatten, hmeet⟩ :=
        readSteps_gap hQ hstart hcd.calm' ⟨hd.rest_eq, hd.stop_eq⟩
      refine ⟨rows', d', hrun', ⟨⟨?_, hend'⟩, hcalm, hcalm'⟩, _, ⟨us, span, rfl, hmeet⟩, ?_⟩
      · exact (hplace.resolve_left fun h => h.1 rfl).rest_eq
      · rw [hflatten]
        exact hrows.meets

/-- The tokens of two texts and a line feed between them. -/
theorem exists_tokens_joined (hP : Token.ofText P = .ok ps) (hQ : Token.ofText Q = .ok qs)
    (hstart : ∀ a ∈ Q.head?, isBlank a = false) :
    ∃ rs span us, Token.ofText (P ++ '\n' :: Q) = .ok rs ∧
      RowsMeet (settle P) id (⟨.lineBreak, span⟩ :: us) ps rs ∧
      RowsMeet (Position.after {} P).below id [] qs us := by
  obtain ⟨rows, c, hrun, hend, rfl⟩ := exists_rows_of_ofText hP
  have halong : Along (settle P) (trimmed P) (P.rtakeWhile isBlank)
      (P.rtakeWhile isBlank ++ '\n' :: Q) (Cursor.ofText P).fork
      (Cursor.ofText (P ++ '\n' :: Q)).fork := by
    refine ⟨[], trimmed P, rfl, ?_, ?_, rfl⟩
    · rw [trimmed_append]
      exact (stands_ofText P).fork
    · rw [← List.append_assoc, trimmed_append, settle_of_front List.nil_prefix]
      exact (stands_ofText _).fork
  have hfollowed := (concludes_settle P hQ hstart).followed (E := none) (by simp)
    ⟨halong, fun f hf => (by cases hf), fun f hf => (by cases hf)⟩
  obtain ⟨rows', d, hrun', hend', -, _, ⟨us, span, rfl, hus⟩, hrows⟩ :=
    hfollowed.of_rest_eq_nil hrun hend
  refine ⟨rows'.flatten, span, us, ?_, hrows, hus⟩
  rw [Token.ofText, readTokens_of_ok hrun']
  simp [Cursor.atEnd, hend']

end Token

end Formulary
