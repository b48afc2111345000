/-
# What a parser accepts

A view says what is around a cursor: the items to come and the item just passed.  A parser
accepts a view if it succeeds wherever the view holds, and leads to a view that may depend on its
value; it rejects a view if it fails there, in a way that may be backtracked over.  Forks and
recorded failures do not change what is around a cursor, so acceptance and rejection follow the
structure of a parser.  This gives what a parser does succeed with; `Reads` tells what it has
read if it succeeds.
-/
import Formulary.Proofs.Data.Results
import Formulary.Proofs.Parsing.Repetition

namespace Formulary.Parsing

open Text

variable {ι α β γ κ : Type}

/-- What is around a cursor: the items to come, and the item just passed. -/
abbrev View (ι : Type) := List (Located ι) → Option (Located ι) → Prop

/-- None of the failures recorded is fatal. -/
def Cursor.Calm (c : Cursor ι) : Prop := ∀ f ∈ c.pending, f.fatal = false

/-- The view holds around the cursor, on which no fatal failure is recorded. -/
def Cursor.Meets (c : Cursor ι) (V : View ι) : Prop := V c.rest c.previous ∧ c.Calm

/-- Wherever the view `V` holds, the parser succeeds and leads to the view that `W` gives for its
value. -/
def Accepts (V : View ι) (m : Parser ι α) (W : α → View ι) : Prop :=
  ∀ ⦃c⦄, c.Meets V → ∃ a c', m c = .ok a c' ∧ c'.Meets (W a)

/-- Wherever the view `V` holds, the parser fails in a way that may be backtracked over. -/
def Rejects (V : View ι) (m : Parser ι α) : Prop :=
  ∀ ⦃c⦄, c.Meets V → ∃ f c', m c = .error f c' ∧ f.fatal = false

variable {V V' : View ι} {W W' : α → View ι} {X : β → View ι}

/-! ## Cursors -/

lemma Cursor.Meets.fork {c : Cursor ι} (h : c.Meets V) : c.fork.Meets V :=
  ⟨h.1, fun f hf => by cases hf⟩

lemma Cursor.Meets.record {c : Cursor ι} (h : c.Meets V) {f : Failure} (hf : f.fatal = false) :
    (c.record f).Meets V := by
  refine ⟨h.1, fun g hg => ?_⟩
  rcases List.mem_append.mp hg with hg | hg
  · exact h.2 g hg
  · rw [List.mem_singleton.mp hg]
    exact hf

lemma Cursor.Meets.adopt {c c' : Cursor ι} (h : c'.Meets V) (hcalm : c.Calm) :
    (c.adopt c').Meets V := by
  unfold Cursor.adopt
  split
  · refine ⟨h.1, fun f hf => ?_⟩
    exact (List.mem_append.mp hf).elim (hcalm f) (h.2 f)
  · exact h

lemma Cursor.Meets.pass [Item ι] {c : Cursor ι} {item : Located ι} {rest : List (Located ι)}
    (h : V rest (some item)) : (c.pass item rest).Meets V :=
  ⟨h, fun f hf => by cases hf⟩

lemma Cursor.Meets.mono {c : Cursor ι} (h : c.Meets V) (himp : ∀ r p, V r p → V' r p) :
    c.Meets V' :=
  ⟨himp _ _ h.1, h.2⟩

/-- What is blamed for lack of anything else may be backtracked over if all that is recorded
may. -/
lemma Cursor.Calm.blame {c : Cursor ι} (h : c.Calm) (fallback : String) :
    (c.blame fallback).fatal = false := by
  unfold Cursor.blame Failure.furthest?
  dsimp only
  split
  · rfl
  · rename_i first rest heq
    have hcalm : ∀ f ∈ first :: rest, f.fatal = false := by
      intro f hf
      rw [← heq, List.mem_eraseDups, List.mem_filter] at hf
      exact h f hf.1
    show (first.summary rest).fatal = false
    unfold Failure.summary
    split
    · exact hcalm first List.mem_cons_self
    · exact List.any_eq_false.mpr fun f hf => by simp [hcalm f hf]

/-! ## Steps -/

lemma Accepts.mono {m : Parser ι α} (h : Accepts V m W) (himp : ∀ a r p, W a r p → W' a r p) :
    Accepts V m W' := by
  intro c hc
  obtain ⟨a, c', hrun, hc'⟩ := h hc
  exact ⟨a, c', hrun, hc'.mono (himp a)⟩

lemma Accepts.of_imp {m : Parser ι α} (h : Accepts V m W) (himp : ∀ r p, V' r p → V r p) :
    Accepts V' m W :=
  fun _ hc => h (hc.mono himp)

lemma Rejects.of_imp {m : Parser ι α} (h : Rejects V m) (himp : ∀ r p, V' r p → V r p) :
    Rejects V' m :=
  fun _ hc => h (hc.mono himp)

/-- What a view says apart from the items may be assumed. -/
lemma accepts_and {P : Prop} {m : Parser ι α} (h : P → Accepts V m W) :
    Accepts (fun r p => P ∧ V r p) m W :=
  fun _ hc => h hc.1.1 (hc.mono fun _ _ hV => hV.2)

lemma rejects_and {P : Prop} {m : Parser ι α} (h : P → Rejects V m) :
    Rejects (fun r p => P ∧ V r p) m :=
  fun _ hc => h hc.1.1 (hc.mono fun _ _ hV => hV.2)

lemma accepts_exists {T : κ → View ι} {m : Parser ι α} (h : ∀ k, Accepts (T k) m W) :
    Accepts (fun r p => ∃ k, T k r p) m W := by
  rintro c ⟨⟨k, hk⟩, hcalm⟩
  exact h k ⟨hk, hcalm⟩

lemma accepts_pure {a : α} (h : ∀ r p, V r p → W a r p) : Accepts V (pure a : Parser ι α) W :=
  fun c hc => ⟨a, c, rfl, hc.mono h⟩

lemma accepts_bind {m : Parser ι α} {f : α → Parser ι β} (h : Accepts V m W)
    (hf : ∀ a, Accepts (W a) (f a) X) : Accepts V (m >>= f) X := by
  intro c hc
  obtain ⟨a, c₁, hm, hc₁⟩ := h hc
  obtain ⟨b, c₂, hrun, hc₂⟩ := hf a hc₁
  exact ⟨b, c₂, (bind_of_ok hm).trans hrun, hc₂⟩

lemma accepts_map {m : Parser ι α} {f : α → β} (h : Accepts V m fun a => X (f a)) :
    Accepts V (f <$> m) X := by
  intro c hc
  obtain ⟨a, c₁, hm, hc₁⟩ := h hc
  exact ⟨f a, c₁, map_of_ok hm, hc₁⟩

/-- What a parser does with the cursor it starts from. -/
lemma accepts_get {f : Cursor ι → Parser ι β} (h : ∀ c : Cursor ι, c.Meets V → Accepts V (f c) X) :
    Accepts V (get >>= f) X :=
  fun c hc => h c hc hc

lemma rejects_bind_left {m : Parser ι α} {f : α → Parser ι β} (h : Rejects V m) :
    Rejects V (m >>= f) := by
  intro c hc
  obtain ⟨e, c₁, hm, he⟩ := h hc
  exact ⟨e, c₁, bind_of_error hm, he⟩

lemma rejects_bind {m : Parser ι α} {f : α → Parser ι β} (h : Accepts V m W)
    (hf : ∀ a, Rejects (W a) (f a)) : Rejects V (m >>= f) := by
  intro c hc
  obtain ⟨a, c₁, hm, hc₁⟩ := h hc
  obtain ⟨e, c₂, hrun, he⟩ := hf a hc₁
  exact ⟨e, c₂, (bind_of_ok hm).trans hrun, he⟩

lemma rejects_map {m : Parser ι α} {f : α → β} (h : Rejects V m) : Rejects V (f <$> m) := by
  intro c hc
  obtain ⟨e, c₁, hm, he⟩ := h hc
  exact ⟨e, c₁, map_of_error hm, he⟩

lemma rejects_get {f : Cursor ι → Parser ι β} (h : ∀ c : Cursor ι, c.Meets V → Rejects V (f c)) :
    Rejects V (get >>= f) :=
  fun c hc => h c hc hc

lemma rejects_failHere (text : String) : Rejects V (failHere text : Parser ι α) :=
  fun c _ => ⟨_, c, rfl, rfl⟩

lemma rejects_expected [Item ι] (what : String) : Rejects V (expected what : Parser ι α) :=
  fun c _ => ⟨_, c, rfl, rfl⟩

lemma rejects_throw {f : Failure} (hf : f.fatal = false) : Rejects V (throw f : Parser ι α) :=
  fun c _ => ⟨f, c, rfl, hf⟩

/-! ## Choices -/

lemma accepts_optional_some {m : Parser ι α} (h : Accepts V m W) :
    Accepts V (optional m) fun o r p => ∃ a, o = some a ∧ W a r p := by
  intro c hc
  obtain ⟨a, c₁, hm, hc₁⟩ := h hc.fork
  refine ⟨some a, c.adopt c₁, by rw [optional, hm], (hc₁.adopt hc.2).mono ?_⟩
  exact fun r p hW => ⟨a, rfl, hW⟩

lemma accepts_optional_none {m : Parser ι α} (h : Rejects V m) :
    Accepts V (optional m) fun o r p => o = none ∧ V r p := by
  intro c hc
  obtain ⟨f, c₁, hm, hf⟩ := h hc.fork
  refine ⟨none, c.record f, ?_, (hc.record hf).mono fun r p hV => ⟨rfl, hV⟩⟩
  simp [optional, hm, hf]

section Choices

variable [Item ι]

/-- The first branch of a choice that is not rejected decides. -/
lemma accepts_choice_cons {m : Parser ι α} {ms : List (Parser ι α)} (h : Accepts V m W) :
    Accepts V (choice (m :: ms)) W := by
  rw [choice]
  refine accepts_bind (accepts_optional_some h) ?_
  rintro (_ | a)
  · rintro c ⟨⟨a, ha, -⟩, -⟩
    cases ha
  · refine accepts_exists fun b => accepts_and fun hb => accepts_pure fun r p hW => ?_
    cases hb
    exact hW

lemma accepts_choice_of_rejects {m : Parser ι α} {ms : List (Parser ι α)} (hm : Rejects V m)
    (h : Accepts V (choice ms) W) : Accepts V (choice (m :: ms)) W := by
  rw [choice]
  refine accepts_bind (accepts_optional_none hm) ?_
  rintro (_ | a)
  · exact h.of_imp fun r p hV => hV.2
  · rintro c ⟨⟨ha, -⟩, -⟩
    cases ha

lemma rejects_choice {ms : List (Parser ι α)} (h : ∀ m ∈ ms, Rejects V m) :
    Rejects V (choice ms) := by
  induction ms with
  | nil => exact fun c hc => ⟨_, c, rfl, hc.2.blame _⟩
  | cons m ms ih =>
    rw [choice]
    refine rejects_bind (accepts_optional_none (h m List.mem_cons_self)) ?_
    rintro (_ | a)
    · exact (ih fun m' hm' => h m' (List.mem_cons_of_mem m hm')).of_imp fun r p hV => hV.2
    · rintro c ⟨⟨ha, -⟩, -⟩
      cases ha

lemma accepts_notAhead {m : Parser ι α} {forbidden : Parser ι β} (hforbidden : Rejects V forbidden)
    (h : Accepts V m W) : Accepts V (notAhead forbidden m) W := by
  intro c hc
  obtain ⟨f, c₁, hrun, hf⟩ := hforbidden hc.fork
  obtain ⟨a, c₂, hm, hc₂⟩ := h hc
  refine ⟨a, c₂, ?_, hc₂⟩
  simp [notAhead, hrun, hf, hm]

end Choices

/-! ## Repetition -/

lemma accepts_many_nil {m : Parser ι α} (h : Rejects V m) :
    Accepts V (many m) fun as r p => as = [] ∧ V r p := by
  intro c hc
  obtain ⟨f, c₁, hm, hf⟩ := h hc.fork
  exact ⟨[], c.record f, many_of_error hm hf, (hc.record hf).mono fun r p hV => ⟨rfl, hV⟩⟩

/-- One more match, after which fewer items are left. -/
lemma accepts_many_cons {m : Parser ι α} {Y : α → List α → View ι} (h : Accepts V m W)
    (hless : ∀ a r p r' p', V r p → W a r' p' → r'.length < r.length)
    (hmore : ∀ a, Accepts (W a) (many m) (Y a)) :
    Accepts V (many m) fun as r p => ∃ a bs, as = a :: bs ∧ Y a bs r p := by
  intro c hc
  obtain ⟨a, c₁, hm, hc₁⟩ := h hc.fork
  obtain ⟨bs, c₂, hrun, hc₂⟩ := hmore a (hc₁.adopt hc.2)
  have hlt : c₁.rest.length < c.rest.length := hless a _ _ _ _ hc.1 hc₁.1
  refine ⟨a :: bs, c₂, ?_, hc₂.mono fun r p hY => ⟨a, bs, rfl, hY⟩⟩
  rw [many_of_ok hm hlt, hrun]
  rfl

variable {step : Parser ι (Option (α × Bool))}

lemma accepts_collect_none (h : Accepts V step fun o r p => o = none ∧ V' r p) :
    Accepts V (collect step) fun as r p => as = [] ∧ V' r p := by
  intro c hc
  obtain ⟨o, c₁, hstep, hc₁⟩ := h hc
  obtain ⟨rfl, -⟩ := hc₁.1
  exact ⟨[], c₁, collect_of_none hstep, hc₁.mono fun r p hV => ⟨rfl, hV.2⟩⟩

/-- A last element. -/
lemma accepts_collect_last (h : Accepts V step fun o r p => ∃ a, o = some (a, false) ∧ W a r p) :
    Accepts V (collect step) fun as r p => ∃ a, as = [a] ∧ W a r p := by
  intro c hc
  obtain ⟨o, c₁, hstep, hc₁⟩ := h hc
  obtain ⟨a, rfl, -⟩ := hc₁.1
  refine ⟨[a], c₁, collect_of_last hstep, hc₁.mono ?_⟩
  rintro r p ⟨b, hb, hW⟩
  cases hb
  exact ⟨a, rfl, hW⟩

/-- One more element, after which fewer items are left. -/
lemma accepts_collect_cons {Y : α → List α → View ι}
    (h : Accepts V step fun o r p => ∃ a, o = some (a, true) ∧ W a r p)
    (hless : ∀ a r p r' p', V r p → W a r' p' → r'.length < r.length)
    (hmore : ∀ a, Accepts (W a) (collect step) (Y a)) :
    Accepts V (collect step) fun as r p => ∃ a bs, as = a :: bs ∧ Y a bs r p := by
  intro c hc
  obtain ⟨o, c₁, hstep, hc₁⟩ := h hc
  obtain ⟨a, rfl, -⟩ := hc₁.1
  have hW : c₁.Meets (W a) := by
    refine hc₁.mono ?_
    rintro r p ⟨b, hb, hW⟩
    cases hb
    exact hW
  have hlt : c₁.rest.length < c.rest.length := hless a _ _ _ _ hc.1 hW.1
  obtain ⟨bs, c₂, hrun, hc₂⟩ := hmore a hW
  refine ⟨a :: bs, c₂, ?_, hc₂.mono fun r p hY => ⟨a, bs, rfl, hY⟩⟩
  rw [collect_of_some hstep hlt, hrun]
  rfl

/-! ## Separated elements -/

variable {element : Parser ι (Option α)} {separator : Parser ι β}

lemma accepts_separated_none (h : Accepts V element fun o r p => o = none ∧ V' r p) :
    Accepts V (separated element separator) fun as r p => as = [] ∧ V' r p := by
  refine accepts_collect_none (accepts_bind h fun o => accepts_and fun ho => ?_)
  rw [ho]
  exact accepts_pure fun r p hr => ⟨rfl, hr⟩

/-- A last element, with no separator after it. -/
lemma accepts_separated_last (h : Accepts V element fun o r p => ∃ a, o = some a ∧ W a r p)
    (hseparator : ∀ a, Rejects (W a) separator) :
    Accepts V (separated element separator) fun as r p => ∃ a, as = [a] ∧ W a r p := by
  refine accepts_collect_last (accepts_bind h fun o => accepts_exists fun a =>
    accepts_and fun ho => ?_)
  rw [ho]
  refine accepts_bind (accepts_optional_none (hseparator a)) fun o => accepts_and fun ho => ?_
  rw [ho]
  exact accepts_pure fun r p hr => ⟨a, rfl, hr⟩

/-- One more element and a separator, after which fewer items are left. -/
lemma accepts_separated_cons {Y : α → View ι} {Z : α → List α → View ι}
    (h : Accepts V element fun o r p => ∃ a, o = some a ∧ W a r p)
    (hseparator : ∀ a, Accepts (W a) separator fun _ => Y a)
    (hless : ∀ a r p r' p', V r p → Y a r' p' → r'.length < r.length)
    (hmore : ∀ a, Accepts (Y a) (separated element separator) (Z a)) :
    Accepts V (separated element separator) fun as r p => ∃ a bs, as = a :: bs ∧ Z a bs r p := by
  refine accepts_collect_cons (accepts_bind h fun o => accepts_exists fun a =>
    accepts_and fun ho => ?_) hless hmore
  rw [ho]
  refine accepts_bind (accepts_optional_some (hseparator a)) fun o => accepts_exists fun _ =>
    accepts_and fun ho => ?_
  rw [ho]
  exact accepts_pure fun r p hr => ⟨a, rfl, hr⟩

/-! ## Groups -/

/-- The contents of a group are accepted to their end; the cursor outside stays. -/
lemma accepts_within [Item ι] {inner : Cursor ι} {m : Parser ι α} {P : α → Prop}
    (hinner : inner.Meets V') (h : Accepts V' m fun a r _ => r = [] ∧ P a) :
    Accepts V (within inner m) fun a r p => P a ∧ V r p := by
  intro c hc
  obtain ⟨a, c₁, hm, hc₁⟩ := h hinner
  have hend : c₁.atEnd = true := by rw [Cursor.atEnd, hc₁.1.1]; rfl
  refine ⟨a, c, ?_, hc.mono fun r p hV => ⟨hc₁.1.2, hV⟩⟩
  rw [within, hm]
  simp [hend]

/-! ## Mild parsers -/

/-- The parser never fails fatally. -/
def Mild (m : Parser ι α) : Prop :=
  ∀ ⦃c⦄, c.Calm → (∃ a c', m c = .ok a c' ∧ c'.Calm) ∨ ∃ f c', m c = .error f c' ∧ f.fatal = false

lemma Mild.calm {m : Parser ι α} (h : Mild m) {c c₁ : Cursor ι} {a : α} (hc : c.Calm)
    (hrun : m c = .ok a c₁) : c₁.Calm := by
  rcases h hc with ⟨b, c₂, hrun', hc₂⟩ | ⟨f, c₂, hrun', -⟩
  · cases hrun.symm.trans hrun'
    exact hc₂
  · cases hrun.symm.trans hrun'

lemma Mild.not_fatal {m : Parser ι α} (h : Mild m) {c c₁ : Cursor ι} {f : Failure} (hc : c.Calm)
    (hrun : m c = .error f c₁) : f.fatal = false := by
  rcases h hc with ⟨b, c₂, hrun', -⟩ | ⟨g, c₂, hrun', hg⟩
  · cases hrun.symm.trans hrun'
  · cases hrun.symm.trans hrun'
    exact hg

lemma mild_pure (a : α) : Mild (pure a : Parser ι α) := fun c hc => .inl ⟨a, c, rfl, hc⟩

lemma mild_bind {m : Parser ι α} {f : α → Parser ι β} (hm : Mild m) (hf : ∀ a, Mild (f a)) :
    Mild (m >>= f) := by
  intro c hc
  have hbind : (m >>= f) c = EStateM.bind m f c := rfl
  rw [hbind, EStateM.bind]
  rcases hm hc with ⟨a, c₁, hrun, hc₁⟩ | ⟨e, c₁, hrun, he⟩
  · rw [hrun]
    exact hf a hc₁
  · rw [hrun]
    exact .inr ⟨e, c₁, rfl, he⟩

lemma mild_satisfying [Item ι] (what : String) (holds : ι → Bool) : Mild (satisfying what holds) := by
  intro c hc
  rw [satisfying]
  split
  · split
    · exact .inl ⟨_, _, rfl, fun f hf => by cases hf⟩
    · exact .inr ⟨_, c, rfl, rfl⟩
  · exact .inr ⟨_, c, rfl, rfl⟩

lemma calm_fork (c : Cursor ι) : c.fork.Calm := fun f hf => by cases hf

lemma Cursor.Calm.adopt {c c' : Cursor ι} (hc : c.Calm) (hc' : c'.Calm) : (c.adopt c').Calm :=
  (Cursor.Meets.adopt (V := fun _ _ => True) ⟨trivial, hc'⟩ hc).2

lemma Cursor.Calm.record {c : Cursor ι} (hc : c.Calm) {f : Failure} (hf : f.fatal = false) :
    (c.record f).Calm :=
  (Cursor.Meets.record (V := fun _ _ => True) ⟨trivial, hc⟩ hf).2

lemma mild_optional {m : Parser ι α} (hm : Mild m) : Mild (optional m) := by
  intro c hc
  rw [optional]
  rcases hm (calm_fork c) with ⟨a, c₁, hrun, hc₁⟩ | ⟨f, c₁, hrun, hf⟩
  · rw [hrun]
    exact .inl ⟨some a, _, rfl, hc.adopt hc₁⟩
  · rw [hrun]
    simp only [hf, Bool.false_eq_true, if_false]
    exact .inl ⟨none, _, rfl, hc.record hf⟩

lemma mild_prepend {o : Outcome ι (List α)} {a : α}
    (h : (∃ as c', o = .ok as c' ∧ c'.Calm) ∨ ∃ f c', o = .error f c' ∧ f.fatal = false) :
    (∃ as c', Outcome.prepend a o = .ok as c' ∧ c'.Calm) ∨
      ∃ f c', Outcome.prepend a o = .error f c' ∧ f.fatal = false := by
  rcases h with ⟨as, c', rfl, hc'⟩ | ⟨f, c', rfl, hf⟩
  · exact .inl ⟨a :: as, c', rfl, hc'⟩
  · exact .inr ⟨f, c', rfl, hf⟩

lemma mild_many {m : Parser ι α} (hm : Mild m) : Mild (many m) := by
  refine many_rounds (motive := fun c o => c.Calm → (∃ as c', o = .ok as c' ∧ c'.Calm) ∨
    ∃ f c', o = .error f c' ∧ f.fatal = false) ?_ ?_ ?_ ?_
  · exact fun c f c₁ hrun _ _ => .inr ⟨f, c, rfl, hm.not_fatal (calm_fork c) hrun⟩
  · exact fun c f c₁ _ hf hc => .inl ⟨[], _, rfl, hc.record hf⟩
  · exact fun c a c₁ _ _ hc => .inl ⟨[], c, rfl, hc⟩
  · exact fun c a c₁ hrun _ ih hc => mild_prepend (ih (hc.adopt (hm.calm (calm_fork c) hrun)))

lemma mild_collect {step : Parser ι (Option (α × Bool))} (hm : Mild step) : Mild (collect step) := by
  refine collect_rounds (motive := fun c o => c.Calm → (∃ as c', o = .ok as c' ∧ c'.Calm) ∨
    ∃ f c', o = .error f c' ∧ f.fatal = false) ?_ ?_ ?_ ?_
  · exact fun c f c₁ hrun hc => .inr ⟨f, c₁, rfl, hm.not_fatal hc hrun⟩
  · exact fun c c₁ hrun hc => .inl ⟨[], c₁, rfl, hm.calm hc hrun⟩
  · exact fun c a goOn c₁ hrun _ hc => .inl ⟨[a], c₁, rfl, hm.calm hc hrun⟩
  · exact fun c a c₁ hrun _ ih hc => mild_prepend (ih (hm.calm hc hrun))

/-! ## Attempts -/

/-- Wherever the view `V` holds, the parser leads to the view that `W` gives for its value, or
fails in a way that may be backtracked over. -/
def Attempts (V : View ι) (m : Parser ι α) (W : α → View ι) : Prop :=
  ∀ ⦃c⦄, c.Meets V → (∃ a c', m c = .ok a c' ∧ c'.Meets (W a)) ∨
    ∃ f c', m c = .error f c' ∧ f.fatal = false

lemma Accepts.attempts {m : Parser ι α} (h : Accepts V m W) : Attempts V m W := fun _ hc =>
  .inl (h hc)

lemma Rejects.attempts {m : Parser ι α} (h : Rejects V m) : Attempts V m W := fun _ hc =>
  .inr (h hc)

lemma attempts_bind {m : Parser ι α} {f : α → Parser ι β} (h : Accepts V m W)
    (hf : ∀ a, Attempts (W a) (f a) X) : Attempts V (m >>= f) X := by
  intro c hc
  obtain ⟨a, c₁, hm, hc₁⟩ := h hc
  have hbind : (m >>= f) c = EStateM.bind m f c := rfl
  rw [hbind, EStateM.bind, hm]
  exact hf a hc₁

lemma rejects_bind_of_attempts {m : Parser ι α} {f : α → Parser ι β} (h : Attempts V m W)
    (hf : ∀ a, Rejects (W a) (f a)) : Rejects V (m >>= f) := by
  intro c hc
  have hbind : (m >>= f) c = EStateM.bind m f c := rfl
  rw [hbind, EStateM.bind]
  rcases h hc with ⟨a, c₁, hm, hc₁⟩ | ⟨e, c₁, hm, he⟩
  · rw [hm]
    exact hf a hc₁
  · rw [hm]
    exact ⟨e, c₁, rfl, he⟩

/-- What is read inside of a group is read or not; either way the cursor outside stays. -/
lemma attempts_within [Item ι] {inner : Cursor ι} {m : Parser ι α} (hm : Mild m)
    (hinner : inner.Calm) : Attempts V (within inner m) fun _ => V := by
  intro c hc
  rw [within]
  rcases hm hinner with ⟨a, c₁, hrun, hc₁⟩ | ⟨e, c₁, hrun, he⟩
  · rw [hrun]
    dsimp only
    split
    · exact .inl ⟨a, c, rfl, hc⟩
    · exact .inr ⟨_, c, rfl, hc₁.blame _⟩
  · rw [hrun]
    exact .inr ⟨e, c, rfl, he⟩

lemma attempts_choice [Item ι] {ms : List (Parser ι α)} (h : ∀ m ∈ ms, Attempts V m W) :
    Attempts V (choice ms) W := by
  induction ms with
  | nil => exact (rejects_choice fun m hm => by cases hm).attempts
  | cons m ms ih =>
    intro c hc
    have hrest := ih fun m' hm' => h m' (List.mem_cons_of_mem m hm')
    have hbind : choice (m :: ms) c = EStateM.bind (optional m) _ c := rfl
    rw [hbind, EStateM.bind, optional]
    rcases h m List.mem_cons_self hc.fork with ⟨a, c₁, hm, hc₁⟩ | ⟨f, c₁, hm, hf⟩
    · rw [hm]
      exact .inl ⟨a, _, rfl, hc₁.adopt hc.2⟩
    · rw [hm]
      simp only [hf, Bool.false_eq_true, if_false]
      exact hrest (hc.record hf)

end Formulary.Parsing
