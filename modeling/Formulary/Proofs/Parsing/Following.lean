/-
# One run that follows another

Two cursors are paired by a relation that does not look at what is recorded on them.  A parser
follows another one if at paired cursors it succeeds where the other does, with a value and a
cursor that are paired again, and fails where the other fails, both in a way that may be
backtracked over.  Where the other one fails fatally nothing is asked.

This goes through every combinator, because what decides how a combinator goes on is whether its
parts succeed.  So two runs of one rule can be compared without saying what the rule reads: on
rows that differ in places only, or on a row and a longer one.
-/
import Mathlib.Data.List.Forall2
import Formulary.Proofs.Data.Lists
import Formulary.Proofs.Parsing.Acceptance
import Formulary.Proofs.Parsing.Recursion

namespace Formulary.Parsing

open Text

variable {ι α α' β β' γ γ' κ : Type}

/-- A relation between the cursors of two runs. -/
abbrev Pairing (ι : Type) := Cursor ι → Cursor ι → Prop

/-- The cursors are related but for what is recorded on them, which is nothing fatal. -/
structure Paired (C : Pairing ι) (c d : Cursor ι) : Prop where
  related : C c.fork d.fork
  calm : c.Calm
  calm' : d.Calm

/-- A failure that may be backtracked over. -/
def Recoverable (o : Outcome ι α) : Prop := ∃ f c, o = .error f c ∧ f.fatal = false

/-- The second outcome is a success if the first is one, with a value paired by `V` and a cursor
paired by `D`, and a failure if the first is one, unless that is fatal. -/
def Outcome.FollowedBy (V : α → α' → Prop) (D : Pairing ι) (o : Outcome ι α) (o' : Outcome ι α') :
    Prop :=
  match o with
  | .ok a c => ∃ b d, o' = .ok b d ∧ V a b ∧ Paired D c d
  | .error f _ => f.fatal = false → Recoverable o'

/-- Wherever cursors are paired by `C`, the outcome of the second parser follows that of the
first. -/
def Follows (C : Pairing ι) (m : Parser ι α) (m' : Parser ι α') (V : α → α' → Prop)
    (D : Pairing ι) : Prop :=
  ∀ ⦃c d⦄, Paired C c d → Outcome.FollowedBy V D (m c) (m' d)

variable {C C' D D' E : Pairing ι} {V V' : α → α' → Prop} {W : β → β' → Prop}
  {m : Parser ι α} {m' : Parser ι α'}

/-! ## Cursors -/

lemma Paired.mono {c d : Cursor ι} (h : Paired C c d) (himp : ∀ c d, C c d → D c d) :
    Paired D c d := ⟨himp _ _ h.related, h.calm, h.calm'⟩

lemma Paired.fork {c d : Cursor ι} (h : Paired C c d) : Paired C c.fork d.fork :=
  ⟨h.related, calm_fork c, calm_fork d⟩

lemma Paired.record {c d : Cursor ι} (h : Paired C c d) {f g : Failure} (hf : f.fatal = false)
    (hg : g.fatal = false) : Paired C (c.record f) (d.record g) :=
  ⟨h.related, h.calm.record hf, h.calm'.record hg⟩

@[simp] lemma fork_adopt (c c' : Cursor ι) : (c.adopt c').fork = c'.fork := by
  unfold Cursor.adopt
  split <;> rfl

lemma Paired.adopt {c d c' d' : Cursor ι} (h : Paired D c' d') (hcd : Paired C c d) :
    Paired D (c.adopt c') (d.adopt d') :=
  ⟨by rw [fork_adopt, fork_adopt]; exact h.related, hcd.calm.adopt h.calm, hcd.calm'.adopt h.calm'⟩

/-- Passing an item forgets what was recorded. -/
lemma paired_pass [Item ι] {c d : Cursor ι} {s t : Located ι} {ss ts : List (Located ι)}
    (h : D (c.pass s ss).fork (d.pass t ts).fork) : Paired D (c.pass s ss) (d.pass t ts) :=
  ⟨h, fun _ hf => (by cases hf), fun _ hf => (by cases hf)⟩

/-! ## Outcomes -/

lemma recoverable_error {f : Failure} {c : Cursor ι} (h : f.fatal = false) :
    Recoverable (.error f c : Outcome ι α) := ⟨f, c, rfl, h⟩

lemma Outcome.FollowedBy.mono {o : Outcome ι α} {o' : Outcome ι α'} (h : o.FollowedBy V D o')
    (hV : ∀ a b, V a b → V' a b) (hD : ∀ c d, D c d → D' c d) : o.FollowedBy V' D' o' := by
  cases o with
  | ok a c =>
    obtain ⟨b, d, rfl, hab, hcd⟩ := h
    exact ⟨b, d, rfl, hV a b hab, hcd.mono hD⟩
  | error f c => exact h

lemma followedBy_of_fatal {f : Failure} {c : Cursor ι} (h : f.fatal = true) {o' : Outcome ι α'} :
    Outcome.FollowedBy V D (.error f c) o' := by
  intro hmild
  rw [h] at hmild
  cases hmild

lemma Outcome.FollowedBy.prepend {o : Outcome ι (List α)} {o' : Outcome ι (List α')} {a : α}
    {b : α'} (h : o.FollowedBy (List.Forall₂ V) D o') (hab : V a b) :
    Outcome.FollowedBy (List.Forall₂ V) D (Outcome.prepend a o) (Outcome.prepend b o') := by
  cases o with
  | ok as c =>
    obtain ⟨bs, d, rfl, habs, hcd⟩ := h
    exact ⟨b :: bs, d, rfl, .cons hab habs, hcd⟩
  | error f c =>
    intro hmild
    obtain ⟨g, d, rfl, hg⟩ := h hmild
    exact recoverable_error hg

/-! ## Steps -/

lemma Follows.mono (h : Follows C m m' V D) (hC : ∀ c d, C' c d → C c d)
    (hV : ∀ a b, V a b → V' a b) (hD : ∀ c d, D c d → D' c d) : Follows C' m m' V' D' :=
  fun _ _ hcd => (h (hcd.mono hC)).mono hV hD

lemma Follows.of_imp (h : Follows C m m' V D) (hC : ∀ c d, C' c d → C c d) :
    Follows C' m m' V D := h.mono hC (fun _ _ => id) fun _ _ => id

lemma Follows.post (h : Follows C m m' V D) (hD : ∀ c d, D c d → D' c d) :
    Follows C m m' V D' := h.mono (fun _ _ => id) (fun _ _ => id) hD

/-- Where both parsers reject what is to come, the second follows the first. -/
lemma follows_of_rejects {T U : View ι} (h : Rejects T m) (h' : Rejects U m')
    (hC : ∀ c d, C c d → T c.rest c.previous ∧ U d.rest d.previous) : Follows C m m' V D := by
  intro c d hcd
  have hviews : T c.rest c.previous ∧ U d.rest d.previous := hC c.fork d.fork hcd.related
  obtain ⟨f, c', hrun, -⟩ := h ⟨hviews.1, hcd.calm⟩
  rw [hrun]
  exact fun _ => h' ⟨hviews.2, hcd.calm'⟩

lemma follows_pure {a : α} {b : α'} (h : V a b) (hD : ∀ c d, C c d → D c d) :
    Follows C (pure a : Parser ι α) (pure b) V D :=
  fun _ d hcd => ⟨b, d, rfl, h, hcd.mono hD⟩

/-- A parser that fails follows one that fails. -/
lemma follows_throw {f g : Failure} (h : f.fatal = false → g.fatal = false) :
    Follows C (throw f : Parser ι α) (throw g : Parser ι α') V D :=
  fun _ _ _ hmild => recoverable_error (h hmild)

lemma follows_failHere (text text' : String) :
    Follows C (failHere text : Parser ι α) (failHere text' : Parser ι α') V D :=
  fun _ _ _ _ => recoverable_error rfl

lemma follows_bind {f : α → Parser ι β} {f' : α' → Parser ι β'} (h : Follows C m m' V D)
    (hf : ∀ a b, V a b → Follows D (f a) (f' b) W E) :
    Follows C (m >>= f) (m' >>= f') W E := by
  intro c d hcd
  have hfirst := h hcd
  cases hm : m c with
  | ok a c₁ =>
    rw [hm] at hfirst
    obtain ⟨b, d₁, hm', hab, hcd₁⟩ := hfirst
    rw [bind_of_ok hm, bind_of_ok hm']
    exact hf a b hab hcd₁
  | error e c₁ =>
    rw [hm] at hfirst
    rw [bind_of_error hm]
    intro hmild
    obtain ⟨g, d₁, hm', hg⟩ := hfirst hmild
    rw [bind_of_error hm']
    exact recoverable_error hg

/-- What a parser does with the cursor it starts from. -/
lemma follows_get {f : Cursor ι → Parser ι α} {f' : Cursor ι → Parser ι α'}
    (h : ∀ c d, C c.fork d.fork → Follows C (f c) (f' d) V D) :
    Follows C (get >>= f) (get >>= f') V D := fun c d hcd => h c d hcd.related hcd

/-! ## Choices -/

section Attempts

variable {c : Cursor ι}

lemma optional_of_ok {a : α} {c₁ : Cursor ι} (h : m c.fork = .ok a c₁) :
    optional m c = .ok (some a) (c.adopt c₁) := by
  rw [optional, h]

lemma optional_of_error {f : Failure} {c₁ : Cursor ι} (h : m c.fork = .error f c₁)
    (hf : f.fatal = false) : optional m c = .ok none (c.record f) := by
  simp [optional, h, hf]

lemma optional_of_fatal {f : Failure} {c₁ : Cursor ι} (h : m c.fork = .error f c₁)
    (hf : f.fatal = true) : optional m c = .error f c := by
  simp [optional, h, hf]

lemma optional_none_inv {c' : Cursor ι} (h : optional m c = .ok none c') :
    Recoverable (m c.fork) ∧ c'.fork = c.fork := by
  rw [optional] at h
  cases hm : m c.fork with
  | ok a c₁ =>
    rw [hm] at h
    cases h
  | error f c₁ =>
    rw [hm] at h
    dsimp only at h
    split at h
    · cases h
    · rename_i hf
      cases h
      exact ⟨recoverable_error (Bool.eq_false_iff.mpr hf), rfl⟩

lemma optional_some_inv {a : α} {c' : Cursor ι} (h : optional m c = .ok (some a) c') :
    ∃ c₁, m c.fork = .ok a c₁ ∧ c'.fork = c₁.fork := by
  rcases optional_run_inv h with ⟨b, c₁, hm, hb, rfl⟩ | ⟨hnone, -⟩
  · cases hb
    exact ⟨c₁, hm, fork_adopt c c₁⟩
  · cases hnone

/-- The first branch that succeeds gives what the choice does, and those in front of it were backtracked
over. -/
lemma choice_inv [Item ι] {ms : List (Parser ι α)} {a : α} {c' : Cursor ι}
    (h : choice ms c = .ok a c') :
    ∃ pre m post c₁, ms = pre ++ m :: post ∧ (∀ m' ∈ pre, Recoverable (m' c.fork)) ∧
      m c.fork = .ok a c₁ ∧ c'.fork = c₁.fork := by
  induction ms generalizing c with
  | nil => cases h
  | cons m ms ih =>
    rw [choice] at h
    cases hm : m c.fork with
    | ok b c₁ =>
      rw [bind_of_ok (optional_of_ok hm)] at h
      obtain ⟨rfl, rfl⟩ := pure_inv h
      exact ⟨[], m, ms, c₁, rfl, by simp, hm, fork_adopt c c₁⟩
    | error f c₁ =>
      cases hf : f.fatal with
      | true =>
        rw [bind_of_error (optional_of_fatal hm hf)] at h
        cases h
      | false =>
        rw [bind_of_ok (optional_of_error hm hf)] at h
        obtain ⟨pre, m', post, c₂, rfl, hpre, hm', hfork⟩ := ih h
        exact ⟨m :: pre, m', post, c₂, rfl, List.forall_mem_cons.mpr ⟨⟨f, c₁, hm, hf⟩, hpre⟩, hm',
          hfork⟩

/-- The branch that succeeds is one of the first ones, or none of these succeeds. -/
lemma choice_append_inv [Item ι] {ms ns : List (Parser ι α)} {a : α} {c' : Cursor ι}
    (h : choice (ms ++ ns) c = .ok a c') :
    ∃ m c₁, m c.fork = .ok a c₁ ∧ c'.fork = c₁.fork ∧
      (m ∈ ms ∨ m ∈ ns ∧ ∀ m' ∈ ms, Recoverable (m' c.fork)) := by
  obtain ⟨pre, m, post, c₁, hms, hpre, hm, hfork⟩ := choice_inv h
  refine ⟨m, c₁, hm, hfork, ?_⟩
  rcases List.append_eq_append_iff.mp hms with ⟨as, rfl, rfl⟩ | ⟨bs, rfl, hbs⟩
  · exact .inr ⟨by simp, fun m' hm' => hpre m' (List.mem_append_left _ hm')⟩
  · cases bs with
    | nil =>
      rw [List.nil_append] at hbs
      exact .inr ⟨by simp [← hbs], by simpa using hpre⟩
    | cons b bs =>
      obtain ⟨rfl, -⟩ := List.cons.inj hbs
      exact .inl (by simp)

end Attempts

/-- Whether a branch succeeds is the same in both runs, and if it fails the cursors stay as they
were. -/
lemma follows_optional_bind {f : Option α → Parser ι β} {f' : Option α' → Parser ι β'}
    (h : Follows C m m' V D) (hsome : ∀ a b, V a b → Follows D (f (some a)) (f' (some b)) W E)
    (hnone : Follows C (f none) (f' none) W E) :
    Follows C (optional m >>= f) (optional m' >>= f') W E := by
  intro c d hcd
  have hbranch := h hcd.fork
  cases hm : m c.fork with
  | ok a c₁ =>
    rw [hm] at hbranch
    obtain ⟨b, d₁, hm', hab, hcd₁⟩ := hbranch
    rw [bind_of_ok (optional_of_ok hm), bind_of_ok (optional_of_ok hm')]
    exact hsome a b hab (hcd₁.adopt hcd)
  | error e c₁ =>
    rw [hm] at hbranch
    cases he : e.fatal with
    | true =>
      rw [bind_of_error (optional_of_fatal hm he)]
      exact followedBy_of_fatal he
    | false =>
      obtain ⟨g, d₁, hm', hg⟩ := hbranch he
      rw [bind_of_ok (optional_of_error hm he), bind_of_ok (optional_of_error hm' hg)]
      exact hnone (hcd.record he hg)

lemma follows_optional (h : Follows C m m' V D) (hD : ∀ c d, C c d → D c d) :
    Follows C (optional m) (optional m') (Option.Rel V) D := by
  rw [← bind_pure (optional m), ← bind_pure (optional m')]
  exact follows_optional_bind h (fun a b hab => follows_pure (.some hab) fun _ _ => id)
    (follows_pure .none hD)

section Choices

variable [Item ι]

lemma follows_choice {ms : List (Parser ι α)} {ms' : List (Parser ι α')}
    (h : List.Forall₂ (fun m m' => Follows C m m' V D) ms ms') :
    Follows C (choice ms) (choice ms') V D := by
  induction h with
  | nil => exact fun c d hcd _ => recoverable_error (hcd.calm'.blame _)
  | cons hm _ ih =>
    rw [choice, choice]
    exact follows_optional_bind hm (fun a b hab => follows_pure hab fun _ _ => id) ih

/-- Branches that reject what is to come are passed over. -/
lemma exists_choice_of_rejects {T : View ι} {ms : List (Parser ι α)} (h : ∀ m ∈ ms, Rejects T m)
    {c : Cursor ι} (hc : c.Meets T) (ms' : List (Parser ι α)) :
    ∃ c', c'.fork = c.fork ∧ c'.Meets T ∧ choice (ms ++ ms') c = choice ms' c' := by
  induction ms generalizing c with
  | nil => exact ⟨c, rfl, hc, rfl⟩
  | cons m ms ih =>
    obtain ⟨f, c₁, hm, hf⟩ := h m List.mem_cons_self hc.fork
    obtain ⟨c', hfork, hc', hrun⟩ := ih (fun m hm => h m (List.mem_cons_of_mem _ hm)) (hc.record hf)
    refine ⟨c', hfork, hc', ?_⟩
    rw [List.cons_append, choice, bind_of_ok (optional_of_error hm hf)]
    exact hrun

/-- Where all other branches reject what is to come, a choice succeeds with the one that is left. -/
lemma choice_of_only {T : View ι} {ms ms' : List (Parser ι α)} (h : ∀ m ∈ ms ++ ms', Rejects T m)
    {c : Cursor ι} (hc : c.Meets T) :
    ∃ c₁ : Cursor ι, c₁.fork = c.fork ∧ c₁.Calm ∧
      (∀ a c₂, m c.fork = .ok a c₂ → choice (ms ++ m :: ms') c = .ok a (c₁.adopt c₂)) ∧
      ∀ a c', choice (ms ++ m :: ms') c = .ok a c' → ∃ c₂, m c.fork = .ok a c₂ := by
  obtain ⟨c₁, hfork, hc₁, hrun⟩ :=
    exists_choice_of_rejects (fun m hm => h m (List.mem_append_left _ hm)) hc (m :: ms')
  refine ⟨c₁, hfork, hc₁.2, fun a c₂ hm => ?_, fun a c' hchoice => ?_⟩
  · rw [hrun, choice, bind_of_ok (optional_of_ok (by rw [hfork]; exact hm))]
    rfl
  · rw [hrun, choice] at hchoice
    cases hm : m c.fork with
    | ok b c₂ =>
      rw [bind_of_ok (optional_of_ok (by rw [hfork]; exact hm))] at hchoice
      cases hchoice
      exact ⟨c₂, rfl⟩
    | error f c₂ =>
      cases hf : f.fatal with
      | true =>
        rw [bind_of_error (optional_of_fatal (by rw [hfork]; exact hm) hf)] at hchoice
        cases hchoice
      | false =>
        rw [bind_of_ok (optional_of_error (by rw [hfork]; exact hm) hf)] at hchoice
        obtain ⟨g, c₃, hfail, -⟩ :=
          rejects_choice (fun m hm => h m (List.mem_append_right _ hm)) (hc₁.record hf)
        dsimp only at hchoice
        rw [hfail] at hchoice
        cases hchoice

lemma follows_notAhead {forbidden : Parser ι β} {forbidden' : Parser ι β'}
    (hforbidden : Follows C forbidden forbidden' W E) (h : Follows C m m' V D) :
    Follows C (notAhead forbidden m) (notAhead forbidden' m') V D := by
  intro c d hcd
  have hahead := hforbidden hcd.fork
  rw [notAhead, notAhead]
  cases hrun : forbidden c.fork with
  | ok b c₁ =>
    rw [hrun] at hahead
    obtain ⟨b', d₁, hrun', -⟩ := hahead
    rw [hrun']
    exact fun _ => recoverable_error rfl
  | error f c₁ =>
    rw [hrun] at hahead
    dsimp only
    split
    · rename_i hfatal
      exact followedBy_of_fatal hfatal
    · rename_i hfatal
      obtain ⟨g, d₁, hrun', hg⟩ := hahead (by simpa using hfatal)
      simp only [hrun', hg, Bool.false_eq_true, if_false]
      exact h hcd

end Choices

/-! ## Repetition -/

/-- Matches that always pass an item are counted alike in both runs. -/
lemma follows_many (h : Follows C m m' V C) (hpasses : Passes m) (hpasses' : Passes m') :
    Follows C (many m) (many m') (List.Forall₂ V) C := by
  refine many_rounds (motive := fun c o => ∀ ⦃d⦄, Paired C c d →
    Outcome.FollowedBy (List.Forall₂ V) C o (many m' d)) ?_ ?_ ?_ ?_
  · exact fun c f c₁ _ hf d _ => followedBy_of_fatal hf
  · intro c f c₁ hm hf d hcd
    have hmatch := h hcd.fork
    rw [hm] at hmatch
    obtain ⟨g, d₁, hm', hg⟩ := hmatch hf
    rw [many_of_error hm' hg]
    exact ⟨[], _, rfl, .nil, hcd.record hf hg⟩
  · exact fun c a c₁ hm hle _ _ => absurd (hpasses hm).2 hle
  · intro c a c₁ hm _ ih d hcd
    have hmatch := h hcd.fork
    rw [hm] at hmatch
    obtain ⟨b, d₁, hm', hab, hcd₁⟩ := hmatch
    rw [many_of_ok hm' (hpasses' hm').2]
    exact Outcome.FollowedBy.prepend (ih (hcd₁.adopt hcd)) hab

/-- Elements and whether to go on are the same in both steps.  The cursors are paired by `C` if the
steps go on and by `E` if they do not. -/
def Outcome.StepFollowedBy (V : α → α' → Prop) (C E : Pairing ι)
    (o : Outcome ι (Option (α × Bool))) (o' : Outcome ι (Option (α' × Bool))) : Prop :=
  match o with
  | .ok none c => ∃ d, o' = .ok none d ∧ Paired E c d
  | .ok (some (a, goOn)) c =>
    ∃ b d, o' = .ok (some (b, goOn)) d ∧ V a b ∧ Paired (if goOn then C else E) c d
  | .error f _ => f.fatal = false → Recoverable o'

/-- A step that goes on has passed an item. -/
def Progresses (step : Parser ι (Option (α × Bool))) : Prop :=
  ∀ ⦃c a c'⦄, step c = .ok (some (a, true)) c' → c'.rest.length < c.rest.length

lemma follows_collect {step : Parser ι (Option (α × Bool))} {step' : Parser ι (Option (α' × Bool))}
    (h : ∀ ⦃c d⦄, Paired C c d → Outcome.StepFollowedBy V C E (step c) (step' d))
    (hprogress : Progresses step) (hprogress' : Progresses step') :
    Follows C (collect step) (collect step') (List.Forall₂ V) E := by
  have hnext {c d : Cursor ι} {o : Outcome ι (Option (α × Bool))} (hcd : Paired C c d)
      (hstep : step c = o) : Outcome.StepFollowedBy V C E o (step' d) := hstep ▸ h hcd
  refine collect_rounds (motive := fun c o => ∀ ⦃d⦄, Paired C c d →
    Outcome.FollowedBy (List.Forall₂ V) E o (collect step' d)) ?_ ?_ ?_ ?_
  · intro c f c₁ hstep d hcd hmild
    obtain ⟨g, d₁, hstep', hg⟩ := hnext hcd hstep hmild
    rw [collect_of_error hstep']
    exact recoverable_error hg
  · intro c c₁ hstep d hcd
    obtain ⟨d₁, hstep', hcd₁⟩ := hnext hcd hstep
    rw [collect_of_none hstep']
    exact ⟨[], d₁, rfl, .nil, hcd₁⟩
  · intro c a goOn c₁ hstep hstays d hcd
    obtain ⟨b, d₁, hstep', hab, hcd₁⟩ := hnext hcd hstep
    cases goOn with
    | false =>
      rw [collect_of_last hstep']
      exact ⟨[b], d₁, rfl, .cons hab .nil, hcd₁⟩
    | true => exact absurd ⟨rfl, hprogress hstep⟩ hstays
  · intro c a c₁ hstep _ ih d hcd
    obtain ⟨b, d₁, hstep', hab, hcd₁⟩ := hnext hcd hstep
    rw [collect_of_some hstep' (hprogress' hstep')]
    exact Outcome.FollowedBy.prepend (ih hcd₁) hab

lemma progresses_separated {element : Parser ι (Option α)} {separator : Parser ι γ}
    (h : Advances element) (hseparator : Passes separator) :
    Progresses (do
      match ← element with
      | none => return none
      | some a => return some (a, (← optional separator).isSome)) := by
  intro c a c' hrun
  obtain ⟨o, c₁, helement, hrun⟩ := bind_inv hrun
  cases o with
  | none =>
    obtain ⟨hnone, -⟩ := pure_inv hrun
    cases hnone
  | some b =>
    obtain ⟨o, c₂, hoptional, hrun⟩ := bind_inv hrun
    obtain ⟨hsome, rfl⟩ := pure_inv hrun
    have hfirst : c₁.rest.length ≤ c.rest.length := (h helement).length_le
    cases hm : separator c₁.fork with
    | ok x c₃ =>
      rw [optional_of_ok hm] at hoptional
      cases hoptional
      rw [Cursor.rest_adopt]
      exact Nat.lt_of_lt_of_le (hseparator hm).2 hfirst
    | error f c₃ =>
      rw [optional, hm] at hoptional
      dsimp only at hoptional
      split at hoptional
      · cases hoptional
      · cases hoptional
        cases hsome

/-- Elements lead from `C` to `D`, and separators lead back. -/
lemma follows_separated {element : Parser ι (Option α)} {element' : Parser ι (Option α')}
    {separator : Parser ι γ} {separator' : Parser ι γ'} {U : γ → γ' → Prop}
    (h : Follows C element element' (Option.Rel V) D)
    (hseparator : Follows D separator separator' U C) (hadvances : Advances element)
    (hadvances' : Advances element') (hpasses : Passes separator) (hpasses' : Passes separator') :
    Follows C (separated element separator) (separated element' separator') (List.Forall₂ V) D := by
  refine follows_collect (fun c d hcd => ?_) (progresses_separated hadvances hpasses)
    (progresses_separated hadvances' hpasses')
  have hfirst := h hcd
  cases hm : element c with
  | error f c₁ =>
    rw [hm] at hfirst
    rw [bind_of_error hm]
    intro hmild
    obtain ⟨g, d₁, hm', hg⟩ := hfirst hmild
    rw [bind_of_error hm']
    exact recoverable_error hg
  | ok o c₁ =>
    rw [hm] at hfirst
    obtain ⟨o', d₁, hm', hoo', hcd₁⟩ := hfirst
    rw [bind_of_ok hm, bind_of_ok hm']
    cases hoo' with
    | none => exact ⟨d₁, rfl, hcd₁⟩
    | @some a b hab =>
      -- whether there is a separator is the same in both runs
      have hsecond := hseparator hcd₁.fork
      dsimp only
      cases hsep : separator c₁.fork with
      | ok x c₂ =>
        rw [hsep] at hsecond
        obtain ⟨y, d₂, hsep', -, hcd₂⟩ := hsecond
        rw [bind_of_ok (optional_of_ok hsep), bind_of_ok (optional_of_ok hsep')]
        exact ⟨b, _, rfl, hab, hcd₂.adopt hcd₁⟩
      | error f c₂ =>
        rw [hsep] at hsecond
        cases hf : f.fatal with
        | true =>
          rw [bind_of_error (optional_of_fatal hsep hf)]
          intro hmild
          rw [hf] at hmild
          cases hmild
        | false =>
          obtain ⟨g, d₂, hsep', hg⟩ := hsecond hf
          rw [bind_of_ok (optional_of_error hsep hf), bind_of_ok (optional_of_error hsep' hg)]
          exact ⟨b, _, rfl, hab, hcd₁.record hf hg⟩

/-! ## Groups and recursion -/

/-- Runs inside of two groups that reach the ends of both or of none. -/
lemma follows_within [Item ι] {inner inner' : Cursor ι} (h : Follows C m m' V D)
    (hinner : Paired C inner inner') (hend : ∀ c d, D c d → (c.rest = [] ↔ d.rest = [])) :
    Follows E (within inner m) (within inner' m') V E := by
  intro c d hcd
  have hrun := h hinner
  rw [within, within]
  cases hm : m inner with
  | ok a c₁ =>
    rw [hm] at hrun
    obtain ⟨b, d₁, hm', hab, hcd₁⟩ := hrun
    rw [hm']
    have hsame : c₁.atEnd = d₁.atEnd := by
      have hiff : c₁.rest = [] ↔ d₁.rest = [] := hend c₁.fork d₁.fork hcd₁.related
      rw [Cursor.atEnd, Cursor.atEnd, Bool.eq_iff_iff, List.isEmpty_iff, List.isEmpty_iff, hiff]
    cases hatEnd : c₁.atEnd with
    | true => simp only [← hsame, hatEnd, if_true]; exact ⟨b, d, rfl, hab, hcd⟩
    | false =>
      simp only [← hsame, hatEnd, Bool.false_eq_true, if_false]
      exact fun _ => recoverable_error (hcd₁.calm'.blame _)
  | error f c₁ =>
    rw [hm] at hrun
    intro hmild
    obtain ⟨g, d₁, hm', hg⟩ := hrun hmild
    rw [hm']
    exact recoverable_error hg

end Formulary.Parsing
