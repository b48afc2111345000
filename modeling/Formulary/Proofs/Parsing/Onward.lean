/-
# How cursors move

Whatever a rule does, it only passes items: the cursor afterwards, after a failure as well, stands
behind some of the items that were to come, and its offset has grown by their width.  As long as
none was passed, what was recorded before is still there.  The cursors that runs come to are
therefore all made from the first one in this way, and over characters they stand at the ends of
characters.
-/
import Mathlib.Algebra.Ring.Nat
import Mathlib.Tactic.Common
import Formulary.Parsing.Rule
import Formulary.Proofs.Parsing.Repetition
import Formulary.Token.Basic

namespace Formulary.Parsing

open Text

variable {ι α β γ : Type} [Item ι] {c c' c'' : Cursor ι}

/-! ## Passing items -/

/-- The total width of the items. -/
def totalWidth (items : List (Located ι)) : Nat := (items.map fun item => Item.width item.value).sum

/-- The items `passed` lie between two places in a row.  If there are none, what was recorded at
the first place is recorded at the second, before all else. -/
structure Cursor.Moved (passed : List (Located ι)) (c c' : Cursor ι) : Prop where
  rest_eq : c.rest = passed ++ c'.rest
  offset_eq : c'.offset = c.offset + totalWidth passed
  previous_eq : c'.previous = passed.getLast?.or c.previous
  start_eq : c'.start = c.start
  stop_eq : c'.stop = c.stop
  pending_prefix : passed = [] → c.pending <+: c'.pending

/-- The second place is the first one or lies behind it. -/
def Cursor.Onward (c c' : Cursor ι) : Prop := ∃ passed, c.Moved passed c'

@[simp] lemma totalWidth_append (xs ys : List (Located ι)) :
    totalWidth (xs ++ ys) = totalWidth xs + totalWidth ys := by
  simp [totalWidth]

/-- Items that have a width are wide together. -/
lemma totalWidth_pos (hwidth : ∀ i : ι, 0 < Item.width i) {items : List (Located ι)}
    (h : items ≠ []) : 0 < totalWidth items := by
  obtain ⟨item, rest, rfl⟩ := List.exists_cons_of_ne_nil h
  have := hwidth item.value
  simp only [totalWidth, List.map_cons, List.sum_cons]
  omega

namespace Cursor

/-- Nothing is passed where the row to come and the offset stay the same. -/
lemma Moved.of_rest_eq (hrest : c.rest = c'.rest) (hoffset : c'.offset = c.offset)
    (hprevious : c'.previous = c.previous) (hstart : c'.start = c.start) (hstop : c'.stop = c.stop)
    (hpending : c.pending <+: c'.pending) : c.Moved [] c' :=
  ⟨hrest, hoffset, hprevious, hstart, hstop, fun _ => hpending⟩

lemma Moved.refl (c : Cursor ι) : c.Moved [] c :=
  .of_rest_eq rfl rfl rfl rfl rfl (List.prefix_refl _)

lemma Onward.refl (c : Cursor ι) : c.Onward c := ⟨[], .refl c⟩

lemma Moved.trans {xs ys : List (Located ι)} (h : c.Moved xs c') (h' : c'.Moved ys c'') :
    c.Moved (xs ++ ys) c'' where
  rest_eq := by rw [h.rest_eq, h'.rest_eq, List.append_assoc]
  offset_eq := by rw [h'.offset_eq, h.offset_eq, totalWidth_append, Nat.add_assoc]
  previous_eq := by
    rw [h'.previous_eq, h.previous_eq, List.getLast?_append, ← Option.or_assoc]
  start_eq := h'.start_eq.trans h.start_eq
  stop_eq := h'.stop_eq.trans h.stop_eq
  pending_prefix hnil := by
    obtain ⟨hxs, hys⟩ := List.append_eq_nil_iff.mp hnil
    exact (h.pending_prefix hxs).trans (h'.pending_prefix hys)

lemma Onward.trans (h : c.Onward c') (h' : c'.Onward c'') : c.Onward c'' := by
  obtain ⟨xs, hxs⟩ := h
  obtain ⟨ys, hys⟩ := h'
  exact ⟨xs ++ ys, hxs.trans hys⟩

lemma onward_pass {item : Located ι} {rest : List (Located ι)} (h : c.rest = item :: rest) :
    c.Onward (c.pass item rest) := by
  refine ⟨[item], h, ?_, rfl, rfl, rfl, fun hnil => ?_⟩
  · simp [pass, totalWidth]
  · cases hnil

lemma onward_record (c : Cursor ι) (f : Failure) : c.Onward (c.record f) :=
  ⟨[], .of_rest_eq rfl rfl rfl rfl rfl (List.prefix_append _ _)⟩

/-- What was read on a fork counts as read where it is adopted. -/
lemma Onward.adopt (h : c.fork.Onward c') : c.Onward (c.adopt c') := by
  obtain ⟨passed, hpassed⟩ := h
  refine ⟨passed, ?_⟩
  unfold Cursor.adopt
  split
  · exact ⟨hpassed.rest_eq, hpassed.offset_eq, hpassed.previous_eq, hpassed.start_eq,
      hpassed.stop_eq, fun _ => List.prefix_append _ _⟩
  · rename_i hmoved
    refine ⟨hpassed.rest_eq, hpassed.offset_eq, hpassed.previous_eq, hpassed.start_eq,
      hpassed.stop_eq, fun hnil => ?_⟩
    subst hnil
    exact absurd hpassed.offset_eq hmoved

/-- If every item has a width, the offset stays exactly where no item was passed. -/
lemma Moved.offset_eq_iff (hwidth : ∀ i : ι, 0 < Item.width i) {passed : List (Located ι)}
    (h : c.Moved passed c') : c'.offset = c.offset ↔ passed = [] := by
  constructor
  · intro hoffset
    by_contra hne
    have := totalWidth_pos hwidth hne
    have := h.offset_eq
    omega
  · rintro rfl
    exact h.offset_eq

/-- The offset grows exactly if fewer items are left. -/
lemma Onward.offset_eq_iff (hwidth : ∀ i : ι, 0 < Item.width i) (h : c.Onward c') :
    c'.offset = c.offset ↔ ¬ c'.rest.length < c.rest.length := by
  obtain ⟨passed, hpassed⟩ := h
  rw [hpassed.offset_eq_iff hwidth, hpassed.rest_eq, List.length_append,
    ← List.length_eq_zero_iff]
  omega

end Cursor

/-! ## Parsers that only pass items -/

/-- The cursor that a run ends at. -/
def Outcome.cursor : Outcome ι α → Cursor ι
  | .ok _ c => c
  | .error _ c => c

/-- Whether it succeeds or not, the parser passes some of the items to come and does nothing
else to the cursor. -/
def MovesOnward (m : Parser ι α) : Prop :=
  ∀ c : Cursor ι, c.Onward (Outcome.cursor (m c))

omit [Item ι] in
@[simp] lemma Outcome.cursor_prepend (a : α) (o : Outcome ι (List α)) :
    (o.prepend a).cursor = o.cursor := by
  cases o <;> rfl

variable {m : Parser ι α}

lemma movesOnward_pure (a : α) : MovesOnward (pure a : Parser ι α) := Cursor.Onward.refl

lemma movesOnward_bind {f : α → Parser ι β} (h : MovesOnward m) (hf : ∀ a, MovesOnward (f a)) :
    MovesOnward (m >>= f) := by
  intro c
  show c.Onward (Outcome.cursor (EStateM.bind m f c))
  have hm := h c
  unfold EStateM.bind
  cases hrun : m c with
  | ok a c₁ =>
    rw [hrun] at hm
    exact hm.trans (hf a c₁)
  | error e c₁ =>
    rw [hrun] at hm
    exact hm

lemma movesOnward_map (h : MovesOnward m) (f : α → β) : MovesOnward (f <$> m) := by
  intro c
  have hm := h c
  show c.Onward (Outcome.cursor (EStateM.map f m c))
  unfold EStateM.map
  cases hrun : m c with
  | ok a c₁ =>
    rw [hrun] at hm
    exact hm
  | error e c₁ =>
    rw [hrun] at hm
    exact hm

lemma movesOnward_get {f : Cursor ι → Parser ι α} (h : ∀ c, MovesOnward (f c)) :
    MovesOnward (get >>= f) :=
  fun c => h c c

lemma movesOnward_throw (f : Failure) : MovesOnward (throw f : Parser ι α) := Cursor.Onward.refl

lemma movesOnward_failHere (text : String) : MovesOnward (failHere text : Parser ι α) :=
  Cursor.Onward.refl

lemma movesOnward_next : MovesOnward (next : Parser ι (Located ι)) := by
  intro c
  unfold next
  split
  · exact .refl c
  · rename_i hrest
    exact Cursor.onward_pass hrest

lemma movesOnward_peek : MovesOnward (peek : Parser ι (Located ι)) := by
  intro c
  unfold peek
  split <;> exact .refl c

lemma movesOnward_satisfying (what : String) (holds : ι → Bool) :
    MovesOnward (satisfying what holds) := by
  intro c
  unfold satisfying
  split
  · rename_i hrest
    split
    · exact Cursor.onward_pass hrest
    · exact .refl c
  · exact .refl c

lemma movesOnward_takeItems (n : Nat) : MovesOnward (takeItems n : Parser ι (List ι)) := by
  induction n with
  | zero => exact movesOnward_pure []
  | succ n ih =>
    exact movesOnward_bind movesOnward_next fun _ => movesOnward_bind ih fun _ => movesOnward_pure _

lemma movesOnward_matching (p : Pattern ι) : MovesOnward (matching p) := by
  intro c
  unfold matching
  split
  · exact movesOnward_takeItems _ c
  · exact .refl c

lemma movesOnward_literal [BEq ι] (shown : String) (wanted : List ι) :
    MovesOnward (literal shown wanted) := by
  have hgo (failure : Failure) : ∀ (ws : List ι) (c : Cursor ι),
      c.Onward (Outcome.cursor (literal.go wanted failure ws c)) := by
    intro ws
    induction ws with
    | nil => exact Cursor.Onward.refl
    | cons w ws ih =>
      intro c
      rw [literal.go]
      split
      · exact .refl c
      · rename_i hrest
        split
        · exact (Cursor.onward_pass hrest).trans (ih _)
        · exact Cursor.onward_pass hrest
  exact fun c => hgo _ wanted c

lemma movesOnward_optional (h : MovesOnward m) : MovesOnward (optional m) := by
  intro c
  have hfork := h c.fork
  unfold Parsing.optional
  cases hrun : m c.fork with
  | ok a c₁ =>
    rw [hrun] at hfork
    exact hfork.adopt
  | error f c₁ =>
    dsimp only
    split
    · exact .refl c
    · exact Cursor.onward_record c f

lemma movesOnward_choice {ms : List (Parser ι α)} (h : ∀ m ∈ ms, MovesOnward m) :
    MovesOnward (choice ms) := by
  induction ms with
  | nil => exact Cursor.Onward.refl
  | cons m ms ih =>
    rw [choice]
    refine movesOnward_bind (movesOnward_optional (h m (by simp))) ?_
    rintro (_ | a)
    · exact ih fun m' hm' => h m' (by simp [hm'])
    · exact movesOnward_pure a

lemma movesOnward_notAhead {forbidden : Parser ι β} (h : MovesOnward m) :
    MovesOnward (notAhead forbidden m) := by
  intro c
  unfold notAhead
  split
  · exact .refl c
  · split
    · exact .refl c
    · exact h c

lemma movesOnward_sequence {ms : List (Parser ι α)} (h : ∀ m ∈ ms, MovesOnward m) :
    MovesOnward (sequence ms) := by
  induction ms with
  | nil => exact movesOnward_pure []
  | cons m ms ih =>
    exact movesOnward_bind (h m (by simp)) fun _ =>
      movesOnward_bind (ih fun m' hm' => h m' (by simp [hm'])) fun _ => movesOnward_pure _

lemma movesOnward_delimited {opening : Parser ι β} {closing : Parser ι γ}
    (hopening : MovesOnward opening) (hclosing : MovesOnward closing) (h : MovesOnward m) :
    MovesOnward (delimited opening closing m) :=
  movesOnward_bind hopening fun _ => movesOnward_bind h fun _ =>
    movesOnward_bind hclosing fun _ => movesOnward_pure _

lemma movesOnward_many (h : MovesOnward m) : MovesOnward (many m) := by
  refine many_rounds (motive := fun c o => c.Onward (Outcome.cursor o)) ?_ ?_ ?_ ?_
  · exact fun c _ _ _ _ => .refl c
  · exact fun c f _ _ _ => Cursor.onward_record c f
  · exact fun c _ _ _ _ => .refl c
  · intro c a c₁ hrun _ ih
    have hfork := h c.fork
    rw [hrun] at hfork
    rw [Outcome.cursor_prepend]
    exact hfork.adopt.trans ih

lemma movesOnward_takeUntil (stop : Parser ι β) : MovesOnward (takeUntil stop) := by
  refine takeUntil_rounds (motive := fun c o => c.Onward (Outcome.cursor o)) ?_ ?_ ?_ ?_
  · exact fun c _ _ _ => .refl c
  · exact fun c _ _ _ _ => .refl c
  · exact fun c _ _ _ _ _ => .refl c
  · intro c f c₁ item rest _ _ hrest ih
    rw [Outcome.cursor_prepend]
    exact (Cursor.onward_pass hrest).trans ih

lemma movesOnward_collect {step : Parser ι (Option (α × Bool))} (h : MovesOnward step) :
    MovesOnward (collect step) := by
  have hstep {c : Cursor ι} {o : Outcome ι (Option (α × Bool))} (hrun : step c = o) :
      c.Onward o.cursor := hrun ▸ h c
  refine collect_rounds (motive := fun c o => c.Onward (Outcome.cursor o)) ?_ ?_ ?_ ?_
  · exact fun c f c₁ hrun => hstep hrun
  · exact fun c c₁ hrun => hstep hrun
  · exact fun c a goOn c₁ hrun _ => hstep hrun
  · intro c a c₁ hrun _ ih
    rw [Outcome.cursor_prepend]
    exact (hstep hrun).trans ih

/-- A rule that is given in terms of itself passes items only if its parts do. -/
lemma movesOnward_fix {κ : Type} {size : Cursor ι → Nat}
    {rules : (κ → Parser ι α) → κ → Parser ι α}
    (h : ∀ g, (∀ k, MovesOnward (g k)) → ∀ k, MovesOnward (rules g k)) (k : κ) :
    MovesOnward (fix size rules k) :=
  fix_induction (motive := fun _ c o => c.Onward (Outcome.cursor o)) (fun _ c => .refl c) h k

/-- Every rule only passes items. -/
theorem Rule.movesOnward [BEq ι] : ∀ rule : Rule ι, MovesOnward rule.parser
  | .sequence rules => movesOnward_map (movesOnward_sequence (parsers_moveOnward rules)) _
  | .choice rules => movesOnward_choice (parsers_moveOnward rules)
  | .many rule => movesOnward_map (movesOnward_many rule.movesOnward) _
  | .optional rule => movesOnward_map (movesOnward_optional rule.movesOnward) _
  | .delimited opening closing inner =>
    movesOnward_delimited opening.movesOnward closing.movesOnward inner.movesOnward
  | .notAhead _ rule => movesOnward_notAhead rule.movesOnward
  | .takeUntil _ => movesOnward_map (movesOnward_takeUntil _) _
  | .next => movesOnward_map movesOnward_next _
  | .peek => movesOnward_map movesOnward_peek _
  | .nothing => movesOnward_pure _
  | .fail text => movesOnward_failHere text
  | .fatal _ => Cursor.Onward.refl
  | .record _ => fun c => Cursor.onward_record c _
  | .literal _ _ => movesOnward_map (movesOnward_literal _ _) _
  | .matching _ => movesOnward_map (movesOnward_matching _) _
  | .satisfying _ _ => movesOnward_map (movesOnward_satisfying _ _) _
where
  /-- The same of several rules. -/
  parsers_moveOnward : ∀ rules : List (Rule ι), ∀ m ∈ parsers rules, MovesOnward m
  | [] => by simp [parsers]
  | rule :: rules => by
    rw [parsers, List.forall_mem_cons]
    exact ⟨rule.movesOnward, parsers_moveOnward rules⟩

/-! ## Cursors that runs come to -/

/-- The cursor is the first one of a row, or a run of a rule from such a cursor came to it, or
it is a fork of such a cursor. -/
inductive Reached [BEq ι] (first : Cursor ι) : Cursor ι → Prop
  | first : Reached first first
  | fork {c : Cursor ι} (h : Reached first c) : Reached first c.fork
  | run {c : Cursor ι} (h : Reached first c) (rule : Rule ι) :
      Reached first (Outcome.cursor (rule.parser c))

/-- Whatever runs came to a cursor, some of the items of the row were passed before. -/
lemma Reached.moved [BEq ι] {first : Cursor ι} (hfirst : first.pending = [])
    (h : Reached first c) : first.Onward c := by
  induction h with
  | first => exact .refl first
  | fork _ ih =>
    obtain ⟨passed, hpassed⟩ := ih
    exact ⟨passed, hpassed.rest_eq, hpassed.offset_eq, hpassed.previous_eq, hpassed.start_eq,
      hpassed.stop_eq, fun _ => by rw [hfirst]; exact List.nil_prefix⟩
  | run _ rule ih => exact ih.trans (rule.movesOnward _)

/-- No run comes behind the end of the row. -/
lemma Reached.offset_le [BEq ι] {items : List (Located ι)} {span : Span}
    (h : Reached (.before items span) c) : c.offset ≤ totalWidth items := by
  obtain ⟨passed, hpassed⟩ := h.moved rfl
  have hrest : items = passed ++ c.rest := hpassed.rest_eq
  have hoffset := hpassed.offset_eq
  rw [hrest, totalWidth_append, hoffset]
  simp [Cursor.before]

/-! ## Characters -/

lemma locate_eq_append {text : List Char} {p : Position} {xs ys : List (Located Char)}
    (h : locate p text = xs ++ ys) :
    ∃ pre post, text = pre ++ post ∧ xs = locate p pre ∧ ys = locate (p.after pre) post := by
  induction xs generalizing p text with
  | nil => exact ⟨[], text, rfl, rfl, h.symm⟩
  | cons x xs ih =>
    cases text with
    | nil => cases h
    | cons d text =>
      rw [locate, List.cons_append, List.cons.injEq] at h
      obtain ⟨rfl, hrest⟩ := h
      obtain ⟨pre, post, rfl, rfl, rfl⟩ := ih hrest
      exact ⟨d :: pre, post, rfl, rfl, rfl⟩

lemma locate_append (p : Position) (cs ds : List Char) :
    locate p (cs ++ ds) = locate p cs ++ locate (p.after cs) ds := by
  induction cs generalizing p with
  | nil => rfl
  | cons c cs ih => rw [List.cons_append, locate, ih, locate, List.cons_append, Position.after_cons]

/-- The last of the characters that stand at `p` ends where all of them do. -/
lemma stop_getLast?_locate {pre : List Char} {p : Position} {item : Located Char}
    (h : (locate p pre).getLast? = some item) : item.span.stop = p.after pre := by
  induction pre generalizing p with
  | nil => cases h
  | cons d pre ih =>
    cases pre with
    | nil =>
      cases h
      rfl
    | cons e pre => exact ih (by rwa [locate, locate, List.getLast?_cons_cons] at h)

lemma totalWidth_locate (p : Position) (cs : List Char) :
    p.byte + totalWidth (locate p cs) = (p.after cs).byte := by
  induction cs generalizing p with
  | nil => rfl
  | cons d cs ih =>
    have hd : Item.width d = d.utf8Size := rfl
    rw [Position.after_cons, ← ih, Position.advance_byte, locate, totalWidth, List.map_cons,
      List.sum_cons, hd, totalWidth, Nat.add_assoc]

/-- A cursor over characters stands between a front part of the text and the rest of it. -/
structure Between (c : Cursor Char) (text pre post : List Char) : Prop where
  text_eq : text = pre ++ post
  upcoming_eq : c.upcoming = post
  offset_eq : c.offset = (Position.after {} pre).byte
  position_eq : c.position = Position.after {} pre
  previousEnd_eq : c.previousEnd = Position.after {} pre

/-- Every cursor that runs over a text come to stands at the end of a character. -/
theorem Reached.between {text : List Char} {c : Cursor Char}
    (h : Reached (Cursor.ofText text) c) : ∃ pre post, Between c text pre post := by
  obtain ⟨passed, hpassed⟩ := h.moved rfl
  obtain ⟨pre, post, rfl, rfl, hrest⟩ := locate_eq_append hpassed.rest_eq
  refine ⟨pre, post, rfl, ?_, ?_, ?_, ?_⟩
  · rw [Cursor.upcoming, hrest, locate_values]
  · have hzero : (Cursor.ofText (pre ++ post)).offset = ({} : Position).byte := rfl
    rw [hpassed.offset_eq, hzero, totalWidth_locate]
  · unfold Cursor.position Cursor.span
    rw [hrest, hpassed.stop_eq]
    cases post with
    | nil =>
      show Position.after {} (pre ++ []) = _
      rw [List.append_nil]
    | cons d post => rfl
  · unfold Cursor.previousEnd
    rw [hpassed.previous_eq, hpassed.start_eq]
    cases hlast : (locate {} pre).getLast? with
    | none =>
      have hpre : pre = [] := by
        cases pre with
        | nil => rfl
        | cons d pre => simp [locate] at hlast
      rw [hpre]
      rfl
    | some item => exact stop_getLast?_locate hlast

end Formulary.Parsing
