/-
# What single parsers fail with

Most parsers fail only with what they say themselves: a pattern that takes no more than there is
says what it expects, and a repetition that may be backtracked over does not fail at all.  A choice
fails with the fatal failure of a branch, or with what its branches said.  Whoever passes an item
leaves nothing recorded behind.
-/
import Formulary.Proofs.Data.Lists
import Formulary.Proofs.Parsing.Furthest
import Formulary.Proofs.Parsing.Messages

namespace Formulary.Parsing

open Text

variable {ι α β γ : Type} {Q : Failure → Prop} {m : Parser ι α} {c c' : Cursor ι} {f : Failure}

/-- Whatever the parser fails with has the property. -/
def Fails (m : Parser ι α) (Q : Failure → Prop) : Prop := ∀ ⦃c f c'⦄, m c = .error f c' → Q f

/-- The property holds of the failure to find something, whatever was found instead. -/
def Unmet (Q : Failure → Prop) (what : String) : Prop :=
  ∀ (span : Span) (found : String), Q (.because span s!"expected {what}, found {found}")

/-! ## Steps -/

lemma fails_pure (a : α) : Fails (pure a : Parser ι α) Q := nofun

lemma fails_throw (h : Q f) : Fails (throw f : Parser ι α) Q := by
  rintro _ _ _ ⟨⟩
  exact h

lemma fails_failHere {text : String} (h : ∀ span, Q (.because span text)) :
    Fails (failHere text : Parser ι α) Q := by
  rintro c _ _ ⟨⟩
  exact h c.span

/-- Either the first step fails or the second one does. -/
lemma bind_error_inv {g : α → Parser ι β} (h : (m >>= g) c = .error f c') :
    m c = .error f c' ∨ ∃ a c₁, m c = .ok a c₁ ∧ g a c₁ = .error f c' := by
  rw [bind_apply] at h
  cases hm : m c with
  | ok a c₁ =>
    rw [hm] at h
    exact .inr ⟨a, c₁, rfl, h⟩
  | error e c₁ =>
    rw [hm] at h
    cases h
    exact .inl rfl

lemma fails_bind {g : α → Parser ι β} (h : Fails m Q) (hg : ∀ a, Fails (g a) Q) :
    Fails (m >>= g) Q := by
  intro c f c' hrun
  rcases bind_error_inv hrun with hm | ⟨a, c₁, -, hga⟩
  · exact h hm
  · exact hg a hga

lemma fails_get {g : Cursor ι → Parser ι β} (h : ∀ c, Fails (g c) Q) : Fails (get >>= g) Q :=
  fun c _ _ hrun => h c hrun

lemma map_error_inv {g : α → β} (h : (g <$> m) c = .error f c') : m c = .error f c' := by
  rw [map_eq_pure_bind] at h
  rcases bind_error_inv h with hm | ⟨_, _, -, hpure⟩
  · exact hm
  · cases hpure

lemma fails_map (g : α → β) (h : Fails m Q) : Fails (g <$> m) Q :=
  fun _ _ _ hrun => h (map_error_inv hrun)

lemma fails_delimited {opening : Parser ι β} {closing : Parser ι γ} (hopening : Fails opening Q)
    (hclosing : Fails closing Q) (h : Fails m Q) : Fails (delimited opening closing m) Q :=
  fails_bind hopening fun _ => fails_bind h fun _ => fails_bind hclosing fun _ => fails_pure _

lemma delimited_error_inv {opening : Parser ι β} {closing : Parser ι γ}
    (h : delimited opening closing m c = .error f c') :
    opening c = .error f c' ∨ (∃ b c₁, opening c = .ok b c₁ ∧ m c₁ = .error f c') ∨
      ∃ c₂, closing c₂ = .error f c' := by
  rcases bind_error_inv h with hopening | ⟨b, c₁, hopening, h⟩
  · exact .inl hopening
  · rcases bind_error_inv h with hm | ⟨_, c₂, -, h⟩
    · exact .inr (.inl ⟨b, c₁, hopening, hm⟩)
    · rcases bind_error_inv h with hclosing | ⟨_, _, -, hpure⟩
      · exact .inr (.inr ⟨c₂, hclosing⟩)
      · cases hpure

/-- Only fatal failures are passed on. -/
lemma optional_error_inv (h : optional m c = .error f c') :
    f.fatal = true ∧ ∃ c₁, m c.fork = .error f c₁ := by
  rw [Parsing.optional] at h
  cases hm : m c.fork with
  | ok a c₁ =>
    rw [hm] at h
    cases h
  | error g c₁ =>
    rw [hm] at h
    dsimp only at h
    split at h
    · cases h
      exact ⟨‹_›, c₁, rfl⟩
    · cases h

/-! ## Items -/

section Items

variable [Item ι]

lemma fails_expected {what : String} (h : Unmet Q what) :
    Fails (expected what : Parser ι α) Q := by
  rintro c _ _ ⟨⟩
  exact h c.span c.describeNext

lemma fails_satisfying {what : String} (h : Unmet Q what) (holds : ι → Bool) :
    Fails (satisfying what holds) Q := by
  intro c f c' hrun
  unfold satisfying at hrun
  split at hrun
  · split at hrun
    · cases hrun
    · exact fails_expected h hrun
  · exact fails_expected h hrun

lemma fails_next (h : ∀ span, Q (.endOfInput span)) : Fails (next : Parser ι (Located ι)) Q := by
  intro c f c' hrun
  unfold next at hrun
  split at hrun
  · cases hrun
    exact h c.span
  · cases hrun

lemma fails_takeItems (h : ∀ span, Q (.endOfInput span)) (n : Nat) :
    Fails (takeItems n : Parser ι (List ι)) Q := by
  induction n with
  | zero => exact fails_pure []
  | succ n ih => exact fails_bind (fails_next h) fun _ => fails_bind ih fun _ => fails_pure _

/-- As many items as there are can be taken. -/
lemma length_lt_of_takeItems {n : Nat} (h : (takeItems n : Parser ι (List ι)) c = .error f c') :
    c.rest.length < n := by
  induction n generalizing c with
  | zero => cases h
  | succ n ih =>
    cases hrest : c.rest with
    | nil => exact Nat.succ_pos n
    | cons item rest =>
      have hnext : next c = .ok item (c.pass item rest) := by rw [next, hrest]
      rw [takeItems, bind_of_ok hnext] at h
      rcases bind_error_inv h with hmore | ⟨_, _, -, hpure⟩
      · exact Nat.succ_lt_succ (ih hmore)
      · cases hpure

/-- The pattern takes no more than there is. -/
def Pattern.Bounded (p : Pattern ι) : Prop :=
  ∀ items n, p.length? items = some n → n ≤ items.length

lemma fails_matching {p : Pattern ι} (hp : p.Bounded) (h : Unmet Q s!"/{p.source}/") :
    Fails (matching p) Q := by
  intro c f c' hrun
  unfold matching at hrun
  split at hrun
  · rename_i n hlength
    have hle := hp _ (n + 1) hlength
    rw [Cursor.upcoming, List.length_map] at hle
    exact absurd (length_lt_of_takeItems hrun) (Nat.not_lt_of_le hle)
  · exact fails_expected h hrun

lemma fails_literal [BEq ι] {shown : String} (h : ∀ span, Q (.because span s!"expected `{shown}`"))
    (wanted : List ι) : Fails (literal shown wanted) Q := by
  have hgo {f : Failure} (hf : Q f) (ws : List ι) : Fails (literal.go wanted f ws) Q := by
    induction ws with
    | nil => exact nofun
    | cons w ws ih =>
      intro c g c' hrun
      rw [literal.go] at hrun
      split at hrun
      · cases hrun
        exact hf
      · split at hrun
        · exact ih hrun
        · cases hrun
          exact hf
  exact fun c _ _ hrun => hgo (h c.span) wanted hrun

/-- Running out of items is fatal, and nothing else goes wrong. -/
lemma fails_takeUntil {stop : Parser ι β} (hstop : Fails stop fun f => f.fatal = false)
    (h : ∀ span, Q (Failure.endOfInput span).toFatal) : Fails (takeUntil stop) Q := by
  refine takeUntil_rounds (motive := fun c o => ∀ ⦃f c'⦄, o = .error f c' → Q f) ?_ ?_ ?_ ?_
  · rintro c b c₁ _ f c' ⟨⟩
  · intro c g c₁ hrun hg
    rw [hstop hrun] at hg
    cases hg
  · rintro c g c₁ _ _ _ f c' ⟨⟩
    exact h c.span
  · exact fun c g c₁ item rest _ _ _ ih f c' hrun => ih (prepend_error_inv hrun)

end Items

/-! ## Repetitions and choices -/

/-- A repetition of what may be backtracked over does not fail. -/
lemma fails_many (h : ∀ c f c', m (Cursor.fork c) = .error f c' → f.fatal = false) :
    Fails (many m) Q := by
  refine many_rounds (motive := fun c o => ∀ ⦃f c'⦄, o = .error f c' → Q f) ?_ ?_ ?_ ?_
  · intro c g c₁ hrun hg
    rw [h _ _ _ hrun] at hg
    cases hg
  · rintro c g c₁ _ _ f c' ⟨⟩
  · rintro c a c₁ _ _ f c' ⟨⟩
  · exact fun c a c₁ _ _ ih f c' hrun => ih (prepend_error_inv hrun)

/-- A choice fails with a fatal failure of a branch, or with what all branches said. -/
lemma choice_error_inv [Item ι] {ms : List (Parser ι α)} (h : choice ms c = .error f c') :
    (f.fatal = true ∧ ∃ m ∈ ms, ∃ c₁, m c.fork = .error f c₁) ∨
      (∀ m ∈ ms, Recoverable (m c.fork)) := by
  induction ms generalizing c with
  | nil => exact .inr (List.forall_mem_nil _)
  | cons m ms ih =>
    rw [choice] at h
    cases hm : m c.fork with
    | ok a c₁ =>
      rw [bind_of_ok (optional_of_ok hm)] at h
      cases h
    | error g c₁ =>
      cases hg : g.fatal with
      | true =>
        rw [bind_of_error (optional_of_fatal hm hg)] at h
        cases h
        exact .inl ⟨hg, m, List.mem_cons_self, c₁, hm⟩
      | false =>
        rw [bind_of_ok (optional_of_error hm hg)] at h
        rcases ih h with ⟨hf, m', hm', c₂, hrun⟩ | hall
        · exact .inl ⟨hf, m', List.mem_cons_of_mem m hm', c₂, hrun⟩
        · exact .inr (List.forall_mem_cons.mpr ⟨⟨g, c₁, hm, hg⟩, hall⟩)

/-- What a choice gives is what a branch gives on a fork. -/
lemma exists_of_choice [Item ι] {ms : List (Parser ι α)} {a : α} (h : choice ms c = .ok a c') :
    ∃ m ∈ ms, ∃ d c₁ : Cursor ι, d.fork = c.fork ∧ m c.fork = .ok a c₁ ∧ c' = d.adopt c₁ := by
  induction ms generalizing c with
  | nil => cases h
  | cons m ms ih =>
    rw [choice] at h
    obtain ⟨_ | b, c₁, hm, h⟩ := bind_inv h
    · obtain ⟨_, _, -, hnone, -⟩ | ⟨-, g, rfl⟩ := optional_run_inv hm
      · cases hnone
      · obtain ⟨m', hm', d, c₂, hfork, hrun, rfl⟩ := ih h
        exact ⟨m', List.mem_cons_of_mem m hm', d, c₂, hfork, hrun, rfl⟩
    · obtain ⟨_, c₂, hrun, hsome, rfl⟩ | ⟨hsome, -⟩ := optional_run_inv hm
      · cases hsome
        obtain ⟨rfl, rfl⟩ := pure_inv h
        exact ⟨m, List.mem_cons_self, c, c₂, rfl, hrun, rfl⟩
      · cases hsome

/-- Where an optional parser gives nothing, it is recorded why. -/
lemma optional_record_inv (h : optional m c = .ok none c') :
    ∃ g c₁, m c.fork = .error g c₁ ∧ g.fatal = false ∧ c' = c.record g := by
  obtain ⟨⟨g, c₁, hm, hg⟩, -⟩ := optional_none_inv h
  rw [optional_of_error hm hg] at h
  cases h
  exact ⟨g, c₁, hm, hg, rfl⟩

/-- Where a fork has moved, what was recorded in front of it no longer applies. -/
lemma adopt_of_moved (h : c'.offset ≠ c.fork.offset) : c.adopt c' = c' := if_neg h

lemma offset_adopt (c c' : Cursor ι) : (c.adopt c').offset = c'.offset := by
  unfold Cursor.adopt
  split <;> rfl

/-- A choice of what may be backtracked over may be backtracked over. -/
lemma recoverable_choice [Item ι] {ms : List (Parser ι α)}
    (h : ∀ m ∈ ms, Fails m fun f => f.fatal = false) (hc : c.Calm)
    (hrun : choice ms c = .error f c') : f.fatal = false := by
  induction ms generalizing c with
  | nil =>
    cases hrun
    exact hc.blame _
  | cons m ms ih =>
    rw [List.forall_mem_cons] at h
    rw [choice] at hrun
    cases hm : m c.fork with
    | ok a c₁ =>
      rw [bind_of_ok (optional_of_ok hm)] at hrun
      cases hrun
    | error g c₁ =>
      rw [bind_of_ok (optional_of_error hm (h.1 hm))] at hrun
      exact ih h.2 (hc.record (h.1 hm)) hrun

/-! ## What is left recorded -/

/-- Nothing is recorded where the parser succeeds. -/
def Clears (m : Parser ι α) : Prop := ∀ ⦃c a c'⦄, m c = .ok a c' → c'.pending = []

/-- If nothing is recorded, nothing is where the parser succeeds. -/
def KeepsClear (m : Parser ι α) : Prop :=
  ∀ ⦃c a c'⦄, c.pending = [] → m c = .ok a c' → c'.pending = []

lemma Clears.keepsClear (h : Clears m) : KeepsClear m := fun _ _ _ _ hrun => h hrun

lemma keepsClear_pure (a : α) : KeepsClear (pure a : Parser ι α) := by
  rintro c _ _ hc ⟨⟩
  exact hc

lemma keepsClear_throw (f : Failure) : KeepsClear (throw f : Parser ι α) := nofun

lemma keepsClear_failHere (text : String) : KeepsClear (failHere text : Parser ι α) := nofun

lemma keepsClear_get {g : Cursor ι → Parser ι β} (h : ∀ c, KeepsClear (g c)) :
    KeepsClear (get >>= g) := fun c _ _ hc hrun => h c hc hrun

lemma keepsClear_bind {g : α → Parser ι β} (h : KeepsClear m) (hg : ∀ a, KeepsClear (g a)) :
    KeepsClear (m >>= g) := by
  intro c b c' hc hrun
  obtain ⟨a, c₁, hm, hga⟩ := bind_inv hrun
  exact hg a (h hc hm) hga

lemma clears_bind {g : α → Parser ι β} (h : Clears m) (hg : ∀ a, KeepsClear (g a)) :
    Clears (m >>= g) := by
  intro c b c' hrun
  obtain ⟨a, c₁, hm, hga⟩ := bind_inv hrun
  exact hg a (h hm) hga

lemma clears_bind_right {g : α → Parser ι β} (hg : ∀ a, Clears (g a)) : Clears (m >>= g) := by
  intro c b c' hrun
  obtain ⟨a, c₁, -, hga⟩ := bind_inv hrun
  exact hg a hga

lemma clears_get {g : Cursor ι → Parser ι β} (h : ∀ c, Clears (g c)) : Clears (get >>= g) :=
  fun c _ _ hrun => h c hrun

lemma clears_delimited {opening : Parser ι β} {closing : Parser ι γ} (hclosing : Clears closing) :
    Clears (delimited opening closing m) :=
  clears_bind_right fun _ => clears_bind_right fun _ =>
    clears_bind hclosing fun _ => keepsClear_pure _

section Items

variable [Item ι]

lemma clears_next : Clears (next : Parser ι (Located ι)) := by
  intro c item c' hrun
  unfold next at hrun
  split at hrun
  · cases hrun
  · cases hrun
    rfl

lemma keepsClear_takeItems (n : Nat) : KeepsClear (takeItems n : Parser ι (List ι)) := by
  induction n with
  | zero => exact keepsClear_pure []
  | succ n ih =>
    exact (clears_bind clears_next fun _ =>
      keepsClear_bind ih fun _ => keepsClear_pure _).keepsClear

lemma clears_takeItems (n : Nat) : Clears (takeItems (n + 1) : Parser ι (List ι)) :=
  clears_bind clears_next fun _ =>
    keepsClear_bind (keepsClear_takeItems n) fun _ => keepsClear_pure _

lemma clears_matching (p : Pattern ι) : Clears (matching p) := by
  intro c as c' hrun
  unfold matching at hrun
  split at hrun
  · exact clears_takeItems _ hrun
  · cases hrun

lemma clears_literal [BEq ι] (shown : String) {wanted : List ι} (hne : wanted ≠ []) :
    Clears (literal shown wanted) := by
  have hgo (f : Failure) (ws : List ι) :
      ∀ ⦃c as c'⦄, ws ≠ [] ∨ c.pending = [] → literal.go wanted f ws c = .ok as c' →
        c'.pending = [] := by
    induction ws with
    | nil =>
      rintro c _ _ hc ⟨⟩
      exact hc.resolve_left (absurd rfl)
    | cons w ws ih =>
      intro c as c' _ hrun
      rw [literal.go] at hrun
      split at hrun
      · cases hrun
      · split at hrun
        · exact ih (.inr rfl) hrun
        · cases hrun
  exact fun c _ _ hrun => hgo _ wanted (.inl hne) hrun

end Items

end Formulary.Parsing
