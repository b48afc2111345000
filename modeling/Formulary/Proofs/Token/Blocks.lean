/-
# Where blocks end

An indented block directly follows the word that opens it.  It is indented deeper than the block
around it, where a bracket group counts as no block at all, and none of its lines is indented less
than its first one.  It ends where the text ends, where the bracket group around it is closed, even
in the middle of a line, or in front of white space that leads to a line which is indented less, or
to none.

This is said of every block of the token tree, so the rows of the tree are described first, each
with the bracket group and the indentation of the block around it.  What a row is followed by goes
down from a row to those of its groups and blocks.
-/
import Formulary.Proofs.Token.Course
import Formulary.Proofs.Token.Emission

namespace Formulary.Token

open Text Word Parsing

variable {E : Option Nat} {q : Option Char} {x : Position} {g : Option (Located Token)}
  {tokens row us : List (Located Token)} {text before cs ds : List Char} {t : Token} {span : Span}

/-! ## Rows of the token tree -/

/-- The indentation of the first line of a block that covers `cs`: of the last line of the white
space that the block begins with. -/
def firstIndentation (cs : List Char) : Nat := indentation (lastLine (cs.takeWhile isBlank))

/-- The kind of a group, and its tokens. -/
def group? : Token → Option (GroupKind × List (Located Token))
  | .group kind us => some (kind, us)
  | .ident .. | .operator _ | .number .. | .bool _ | .null | .text _ | .comma | .space
  | .lineBreak => none

lemma group?_eq_some_iff {kind : GroupKind} : t.group? = some (kind, us) ↔ t = .group kind us := by
  cases t <;> simp [group?]

/-- A row of the tokens of a text, at any depth, with the bracket group that is closest around it
and the indentation of the block that is closest around it inside of that group. -/
inductive RowIn (text : List Char) (tokens : List (Located Token)) :
    Option (Located Token) → Option Nat → List (Located Token) → Prop
  | top : RowIn text tokens none none tokens
  | group {g : Option (Located Token)} {E : Option Nat} {row us : List (Located Token)}
      {kind : GroupKind} {span : Span} (h : RowIn text tokens g E row)
      (hmem : ⟨.group kind us, span⟩ ∈ row) (hkind : kind ≠ .indented) :
      RowIn text tokens (some ⟨.group kind us, span⟩) none us
  | block {g : Option (Located Token)} {E : Option Nat} {row us : List (Located Token)}
      {span : Span} {cs : List Char} (h : RowIn text tokens g E row)
      (hmem : ⟨.group .indented us, span⟩ ∈ row) (hcs : span.slice? text = some cs) :
      RowIn text tokens g (some (firstIndentation cs)) us

/-- The closing bracket of the group stands at `x`, in front of `ds`. -/
def ClosesAt (g : Located Token) (x : Position) (ds : List Char) : Prop :=
  ∃ kind us a b, g.value = .group kind us ∧ kind.delimiters = some (a, b) ∧ ds.head? = some b ∧
    g.span.stop = x.advance b

/-- The row ends at `x`, in front of `ds`: at the end of the text, or of the bracket group `g`. -/
def RowOver (g : Option (Located Token)) (x : Position) (ds : List Char) : Prop :=
  match g with
  | none => ds = []
  | some g => ClosesAt g x ds

/-- What may follow a block that is indented by `r` and ends at `x`. -/
inductive BlockOver (g : Option (Located Token)) (r : Nat) (x : Position) : List Char → Prop
  | finished : BlockOver g r x []
  | closed {b : Located Token} {ds : List Char} (hb : b ∈ g) (h : ClosesAt b x ds) :
      BlockOver g r x ds
  | dedented {gap ds : List Char} (hblank : ∀ c ∈ gap, isBlank c = true) (hline : '\n' ∈ gap)
      (hfirst : ∀ d ∈ ds.head?, isBlank d = false)
      (h : ds = [] ∨ indentation (lastLine gap) < r) : BlockOver g r x (gap ++ ds)

/-- The block with the tokens `us` covers `cs` in front of `ds`, and lies in its row as it should. -/
structure InPlace (text : List Char) (g : Option (Located Token)) (E : Option Nat)
    (row us : List (Located Token)) (span : Span) (cs ds : List Char) : Prop where
  /-- The block is this part of the text. -/
  covers : ∃ before, text = before ++ cs ++ ds ∧
    span = ⟨Position.after {} before, Position.after {} (before ++ cs)⟩
  /-- It stands directly behind a bare word, and a line break of no width stands behind it. -/
  framed : ∃ w, (w.value = .ident "where" false ∨ w.value = .ident "switch" false) ∧
    w.span.stop = span.start ∧
    [w, ⟨.group .indented us, span⟩, ⟨.lineBreak, Span.point span.stop⟩] <:+: row
  /-- It is indented deeper than the block around it. -/
  deeper : E.getD 0 < firstIndentation cs
  /-- Its lines are indented at least as deep as the first one. -/
  lines : ∀ u ∈ us, u.value = .lineBreak → u.span.isEmpty = false →
    ∃ gap, u.span.slice? text = some gap ∧ '\n' ∈ gap ∧
      firstIndentation cs ≤ indentation (lastLine gap)
  /-- It ends where it has to. -/
  ends : BlockOver g (firstIndentation cs) span.stop ds

/-! ## White space -/

lemma Leads.firstIndentation_eq {enclosing : Nat} {blank mid back : List Char}
    (h : Leads enclosing blank (mid ++ back)) :
    firstIndentation (blank ++ mid) = indentation (lastLine blank) := by
  have hfirst : ∀ d ∈ mid.head?, isBlank d = false := fun d hd => h.first d (by
    cases mid with
    | nil => cases hd
    | cons e mid => exact hd)
  rw [firstIndentation, takeWhile_isBlank h.blanks hfirst]

lemma blockEnds_mono {r r' : Nat} (hr : r ≤ r') (h : blockEnds r ds = true) :
    blockEnds r' ds = true := by
  simp only [blockEnds, Bool.and_eq_true, Bool.or_eq_true, decide_eq_true_eq] at h ⊢
  exact ⟨h.1, h.2.imp_right fun hless => Nat.lt_of_lt_of_le hless hr⟩

/-- Where a block has to end, white space leads to a line that is indented less, or to none. -/
lemma blockOver_of_blockEnds {r : Nat} (h : blockEnds r ds = true) : BlockOver g r x ds := by
  obtain ⟨gap, ds, rfl, hblank, hfirst⟩ := exists_run isBlank ds
  rw [blockEnds_append hblank hfirst] at h
  simp only [Bool.and_eq_true, Bool.or_eq_true, decide_eq_true_eq, List.contains_iff_mem] at h
  exact .dedented hblank h.1 hfirst h.2

lemma Fits.lineBreak_inv (h : Fits q t cs ds) (ht : t = .lineBreak) :
    (∀ c ∈ cs, isBlank c = true) ∧ '\n' ∈ cs ∧ ∀ d ∈ ds.head?, isBlank d = false := by
  cases h with
  | @keyword _ _ k => cases k <;> cases ht
  | blank hcs _ hds =>
    rw [ofBlank] at ht
    split at ht
    · rename_i hline
      exact ⟨hcs, List.contains_iff_mem.mp hline, hds⟩
    · cases ht
  | _ => cases ht

/-- A line break within a block leads to a line that is indented as deep as the block. -/
lemma le_indentation_of_lineBreak {r : Nat} (h : Fits q .lineBreak cs ds)
    (hgoes : blockEnds r (cs ++ ds) = false) : '\n' ∈ cs ∧ r ≤ indentation (lastLine cs) := by
  obtain ⟨hblank, hline, hfirst⟩ := h.lineBreak_inv rfl
  refine ⟨hline, ?_⟩
  rw [blockEnds_append hblank hfirst, List.contains_iff_mem.mpr hline] at hgoes
  simp only [Bool.true_and, Bool.or_eq_false_iff, decide_eq_false_iff_not] at hgoes
  exact Nat.le_of_not_lt hgoes.2

lemma opensBlock_iff : t.opensBlock = true ↔ t = .ident "where" false ∨ t = .ident "switch" false := by
  cases t with
  | ident name raw => cases raw <;> simp [opensBlock, isWord]
  | _ => simp [opensBlock, isWord]

/-! ## Where rows lie -/

/-- The row runs its course in the text, and behind it the group or the block that it belongs to is
over. -/
def RowLies (text : List Char) (g : Option (Located Token)) (E : Option Nat)
    (row : List (Located Token)) : Prop :=
  ∃ before cs ds, text = before ++ cs ++ ds ∧
    Course E (lastOf none before) (Position.after {} before) row cs ds ∧
    (RowOver g (Position.after {} (before ++ cs)) ds ∨ E.any (blockEnds · ds) = true)

lemma rowLies_top (h : ofText text = .ok tokens) : RowLies text none none tokens :=
  ⟨[], text, [], by simp, course_of_ofText h, .inl rfl⟩

/-- The row of a bracket group goes up to the closing bracket. -/
lemma RowLies.group {kind : GroupKind} (h : RowLies text g E row)
    (hmem : ⟨.group kind us, span⟩ ∈ row) (hkind : kind ≠ .indented) :
    RowLies text (some ⟨.group kind us, span⟩) none us := by
  obtain ⟨before, cs, ds, rfl, hcourse, -⟩ := h
  generalize ht : (⟨.group kind us, span⟩ : Located Token) = t at hmem
  cases hcourse.seat_of_mem hmem with
  | plain hcs hgoes hfits _ =>
    cases ht
    exact absurd rfl (hfits.ne_group kind us)
  | @group _ a b _ front mid back hcs hdelimiters inside =>
    cases ht
    subst hcs
    rw [← Position.after_append] at inside
    refine ⟨before ++ front ++ [a], mid, b :: (back ++ ds), by simp, ?_, .inl ?_⟩
    · rwa [lastOf_append, List.append_assoc, lastOf_cons, lastOf_nil]
    · refine ⟨kind, us, a, b, rfl, hdelimiters, rfl, ?_⟩
      show (Position.after {} before).after _ = (Position.after {} _).after [b]
      rw [← Position.after_append, ← Position.after_append]
      simp
  | block =>
    cases ht
    exact absurd rfl hkind
  | close => cases ht

lemma blockOver_of_rowOver {r : Nat} (h : RowOver g x ds) : BlockOver g r x ds := by
  cases g with
  | none =>
    obtain rfl : ds = [] := h
    exact .finished
  | some b => exact .closed rfl h

/-- Where nothing of the row around it is left, a block is over for the reason that the row is. -/
lemma rowOver_of_seat {r : Nat} {back : List Char} (hr : E.getD 0 < r)
    (hends : blockEnds r (back ++ ds) = true ∨ back = [])
    (hover : RowOver g (Position.after {} (before ++ cs ++ back)) ds ∨
      E.any (blockEnds · ds) = true) :
    RowOver g (Position.after {} (before ++ cs)) (back ++ ds) ∨ blockEnds r (back ++ ds) = true := by
  rcases hends with hends | rfl
  · exact .inr hends
  · rw [List.append_nil] at hover
    refine hover.imp_right fun h => ?_
    obtain ⟨e, rfl, he⟩ := (Option.any_eq_true _ _).mp h
    exact blockEnds_mono (Nat.le_of_lt hr) he

/-- The line breaks of a row in a block. -/
lemma exists_gap {r : Nat} (hcourse : Course (some r) q (Position.after {} before) us cs ds)
    {u : Located Token} (hu : u ∈ us) (hline : u.value = .lineBreak)
    (hextent : u.span.isEmpty = false) :
    ∃ gap, u.span.slice? (before ++ cs ++ ds) = some gap ∧ '\n' ∈ gap ∧
      r ≤ indentation (lastLine gap) := by
  cases hcourse.seat_of_mem hu with
  | @plain _ front mid back hcs hgoes hfits _ =>
    dsimp only at hline
    subst hline hcs
    refine ⟨mid, ?_, le_indentation_of_lineBreak hfits hgoes⟩
    rw [← Position.after_append, ← Position.after_append, ← List.append_assoc]
    have hslice := slice?_eq_some (before ++ front) mid (back ++ ds)
    simpa using hslice
  | group => cases hline
  | block => cases hline
  | close => simp [Span.isEmpty, Span.point] at hextent

/-- A block in a row lies in place, and the row inside of it is over where the block ends. -/
lemma RowLies.block (h : RowLies text g E row) (hmem : ⟨.group .indented us, span⟩ ∈ row) :
    ∃ cs ds, InPlace text g E row us span cs ds ∧ RowLies text g (some (firstIndentation cs)) us := by
  obtain ⟨before, cs, ds, rfl, hcourse, hover⟩ := h
  generalize ht : (⟨.group .indented us, span⟩ : Located Token) = t at hmem
  cases hcourse.seat_of_mem hmem with
  | plain hcs hgoes hfits _ =>
    cases ht
    exact absurd rfl (hfits.ne_group .indented us)
  | group _ hkind _ =>
    cases ht
    cases hkind
  | close => cases ht
  | @block w start _ front blank mid back hcs hopens hrow hleads inside hends =>
    cases ht
    subst hcs
    have hr := hleads.firstIndentation_eq
    have hstart : (Position.after {} before).after front = Position.after {} (before ++ front) :=
      (Position.after_append _ _ _).symm
    have hstop : (Position.after {} before).after (front ++ (blank ++ mid)) =
        Position.after {} (before ++ front ++ (blank ++ mid)) := by
      rw [← Position.after_append, List.append_assoc]
    rw [hstart, hstop] at hrow ⊢
    rw [← Position.after_append, ← List.append_assoc, ← lastOf_append, ← List.append_assoc] at inside
    rw [← hr] at inside hends
    have hrest : RowOver g (Position.after {} (before ++ (front ++ (blank ++ mid)) ++ back)) ds ∨
        E.any (blockEnds · ds) = true := by simpa using hover
    -- where the rest of the row is over the block is, too
    have hover : RowOver g _ (back ++ ds) ∨ blockEnds _ (back ++ ds) = true :=
      rowOver_of_seat (by rw [hr]; exact hleads.deeper) hends hrest
    rw [← List.append_assoc before] at hover
    refine ⟨blank ++ mid, back ++ ds, ⟨⟨before ++ front, by simp, rfl⟩,
      ⟨_, opensBlock_iff.mp hopens, rfl, hrow⟩, by rw [hr]; exact hleads.deeper, ?_,
      hover.elim blockOver_of_rowOver blockOver_of_blockEnds⟩, ?_⟩
    · intro u hu hline hextent
      have hgap := exists_gap inside hu hline hextent
      simpa using hgap
    · refine ⟨before ++ front ++ blank, mid, back ++ ds, by simp, inside, ?_⟩
      rw [List.append_assoc]
      exact hover

/-! ## Every block -/

lemma RowIn.lies (h : ofText text = .ok tokens) (hrow : RowIn text tokens g E row) :
    RowLies text g E row := by
  induction hrow with
  | top => exact rowLies_top h
  | group _ hmem hkind ih => exact ih.group hmem hkind
  | block _ hmem hcs ih =>
    obtain ⟨cs, ds, hplace, hlies⟩ := ih.block hmem
    obtain ⟨before, rfl, rfl⟩ := hplace.covers
    rw [slice?_eq_some] at hcs
    cases hcs
    exact hlies

lemma RowIn.within {t : Located Token} (h : RowIn text tokens g E row) (ht : t ∈ row) :
    Within tokens t := by
  induction h generalizing t with
  | top => exact .top ht
  | group _ hmem _ ih => exact .inside (ih hmem) ht
  | block _ hmem _ ih => exact .inside (ih hmem) ht

/-- Every token of the tree is in one of its rows. -/
lemma exists_row {t : Located Token} (h : ofText text = .ok tokens) (ht : Within tokens t) :
    ∃ g E row, RowIn text tokens g E row ∧ t ∈ row := by
  induction ht with
  | top ht => exact ⟨none, none, tokens, .top, ht⟩
  | @inside t kind us span _ ht ih =>
    obtain ⟨g, E, row, hrow, hmem⟩ := ih
    by_cases hkind : kind = .indented
    · subst hkind
      obtain ⟨cs, ds, hplace, -⟩ := (hrow.lies h).block hmem
      obtain ⟨before, rfl, rfl⟩ := hplace.covers
      exact ⟨g, _, us, .block hrow hmem (slice?_eq_some before cs ds), ht⟩
    · exact ⟨_, none, us, .group hrow hmem hkind, ht⟩

/-- In every text that can be read into tokens, the rows of the token tree hold all of its tokens,
and every indented block in one of them lies in place: behind the word that opens it, deeper than
the block around it, with no line that is indented less than the first one, and up to where it has
to end. -/
theorem blocks_in_place (h : ofText text = .ok tokens) :
    (∀ t, Within tokens t → ∃ g E row, RowIn text tokens g E row ∧ t ∈ row) ∧
    ∀ g E row us span, RowIn text tokens g E row → ⟨.group .indented us, span⟩ ∈ row →
      ∃ cs ds, InPlace text g E row us span cs ds := by
  refine ⟨fun t ht => exists_row h ht, fun g E row us span hrow hmem => ?_⟩
  obtain ⟨cs, ds, hplace, -⟩ := (hrow.lies h).block hmem
  exact ⟨cs, ds, hplace⟩

/-- A block in parentheses is over where these are closed, in the middle of a line; the tabulator in
front of its line counts for four columns. -/
theorem blocks_in_place_of_group :
    ∃ tokens g us vs ds, ofText "(where\n\tx)".toList = .ok tokens ∧
      RowIn "(where\n\tx)".toList tokens (some g) none us ∧
      InPlace "(where\n\tx)".toList (some g) none us vs ⟨⟨6, 1, 7⟩, ⟨9, 2, 3⟩⟩ ['\n', '\t', 'x'] ds ∧
      firstIndentation ['\n', '\t', 'x'] = 4 := by
  have hfound : (ofText "(where\n\tx)".toList).toOption.any (fun tokens => tokens.any fun t =>
      t.value.group?.any fun k => k.1 == .parens && k.2.any fun u =>
        u.span == ⟨⟨6, 1, 7⟩, ⟨9, 2, 3⟩⟩ && u.value.group?.any (·.1 == .indented)) = true := by
    decide +kernel
  obtain ⟨tokens, htokens, hfound⟩ := (Option.any_eq_true _ _).mp hfound
  obtain ⟨⟨t, outer⟩, ht, hfound⟩ := List.any_eq_true.mp hfound
  obtain ⟨⟨kind, us⟩, hgroup, hfound⟩ := (Option.any_eq_true _ _).mp hfound
  simp only [Bool.and_eq_true, beq_iff_eq] at hfound
  obtain ⟨rfl, hfound⟩ := hfound
  obtain ⟨⟨u, span⟩, hu, hfound⟩ := List.any_eq_true.mp hfound
  simp only [Bool.and_eq_true, beq_iff_eq] at hfound
  obtain ⟨rfl, hfound⟩ := hfound
  obtain ⟨⟨kind, vs⟩, hblock, hfound⟩ := (Option.any_eq_true _ _).mp hfound
  obtain rfl := eq_of_beq hfound
  obtain rfl := group?_eq_some_iff.mp hgroup
  obtain rfl := group?_eq_some_iff.mp hblock
  have h := eq_ok_of_toOption htokens
  have hrow : RowIn "(where\n\tx)".toList tokens _ none us := .group .top ht (by decide)
  obtain ⟨cs, ds, hplace⟩ := (blocks_in_place h).2 _ _ _ _ _ hrow hu
  have hcs : cs = ['\n', '\t', 'x'] := by
    obtain ⟨before, htext, hspan⟩ := hplace.covers
    have hslice := slice?_eq_some before cs ds
    rw [← hspan, ← htext] at hslice
    exact Option.some.inj (hslice.symm.trans (by decide))
  subst hcs
  exact ⟨tokens, _, us, vs, ds, h, hrow, hplace, by decide⟩

end Formulary.Token
