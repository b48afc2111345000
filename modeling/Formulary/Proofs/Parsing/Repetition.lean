/-
# Repetitions

The loops of the combinators go on as long as fewer items are left after each round.  This file
says what a single round does, and gives inductions over the rounds: for all outcomes, and for runs
that succeed.  Rules that are given in terms of themselves come with an induction as well.
-/
import Mathlib.Tactic.Common
import Formulary.Parsing.Combinators

namespace Formulary.Parsing

open Text

variable {ι α β : Type} {m : Parser ι α} {c c₁ c' : Cursor ι} {a : α} {as : List α} {f : Failure}

lemma prepend_inv {o : Outcome ι (List α)} (h : o.prepend a = .ok as c') :
    ∃ bs, o = .ok bs c' ∧ as = a :: bs := by
  cases o with
  | ok bs c₁ =>
    cases h
    exact ⟨bs, rfl, rfl⟩
  | error f c₁ => cases h

lemma prepend_error_inv {o : Outcome ι (List α)} (h : o.prepend a = .error f c') :
    o = .error f c' := by
  cases o with
  | ok bs c₁ => cases h
  | error g c₁ =>
    cases h
    rfl

/-! ## Elements as long as there are some -/

lemma many_of_ok (h : m c.fork = .ok a c₁) (hlt : c₁.rest.length < c.rest.length) :
    many m c = Outcome.prepend a (many m (c.adopt c₁)) := by
  rw [many, h]
  exact if_pos hlt

lemma many_of_idle (h : m c.fork = .ok a c₁) (hle : ¬ c₁.rest.length < c.rest.length) :
    many m c = .ok [] c := by
  rw [many, h]
  exact if_neg hle

lemma many_of_error (h : m c.fork = .error f c₁) (hf : f.fatal = false) :
    many m c = .ok [] (c.record f) := by
  rw [many, h]
  simp [hf]

lemma many_of_fatal (h : m c.fork = .error f c₁) (hf : f.fatal = true) :
    many m c = .error f c := by
  rw [many, h]
  exact if_pos hf

/-- A repetition ends in front of what is not an element, or of an element that passes nothing;
otherwise an element is read and the repetition goes on behind it. -/
lemma many_rounds {motive : Cursor ι → Outcome ι (List α) → Prop}
    (fatal : ∀ c f c₁, m c.fork = .error f c₁ → f.fatal = true → motive c (.error f c))
    (stop : ∀ c f c₁, m c.fork = .error f c₁ → f.fatal = false → motive c (.ok [] (c.record f)))
    (idle : ∀ c a c₁, m c.fork = .ok a c₁ → ¬ c₁.rest.length < c.rest.length →
      motive c (.ok [] c))
    (more : ∀ c a c₁, m c.fork = .ok a c₁ → c₁.rest.length < c.rest.length →
      motive (c.adopt c₁) (many m (c.adopt c₁)) → motive c (Outcome.prepend a (many m (c.adopt c₁))))
    (c : Cursor ι) : motive c (many m c) := by
  induction hk : c.rest.length using Nat.strongRecOn generalizing c with
  | _ k ih =>
    cases hm : m c.fork with
    | error f c₁ =>
      cases hf : f.fatal with
      | false =>
        rw [many_of_error hm hf]
        exact stop c f c₁ hm hf
      | true =>
        rw [many_of_fatal hm hf]
        exact fatal c f c₁ hm hf
    | ok a c₁ =>
      by_cases hlt : c₁.rest.length < c.rest.length
      · rw [many_of_ok hm hlt]
        exact more c a c₁ hm hlt (ih _ (by rw [← hk, Cursor.rest_adopt]; exact hlt) _ rfl)
      · rw [many_of_idle hm hlt]
        exact idle c a c₁ hm hlt

lemma many_induction {motive : ∀ c as c', many m c = .ok as c' → Prop}
    (stop : ∀ c f c₁ h, m c.fork = .error f c₁ → f.fatal = false → motive c [] (c.record f) h)
    (idle : ∀ c a c₁ h, m c.fork = .ok a c₁ → ¬ c₁.rest.length < c.rest.length →
      motive c [] c h)
    (more : ∀ c a c₁ as c' h h', m c.fork = .ok a c₁ → c₁.rest.length < c.rest.length →
      motive (c.adopt c₁) as c' h → motive c (a :: as) c' h')
    {c : Cursor ι} {as : List α} {c' : Cursor ι} (h : many m c = .ok as c') :
    motive c as c' h := by
  refine many_rounds (m := m) (motive := fun c o => ∀ as c' (h : many m c = .ok as c'),
    o = .ok as c' → motive c as c' h) ?_ ?_ ?_ ?_ c as c' h h
  · intro c f c₁ _ _ as c' _ ho
    cases ho
  · rintro c f c₁ hm hf as c' h ⟨⟩
    exact stop c f c₁ h hm hf
  · rintro c a c₁ hm hle as c' h ⟨⟩
    exact idle c a c₁ h hm hle
  · intro c a c₁ hm hlt ih as c' h ho
    obtain ⟨bs, hmore, rfl⟩ := prepend_inv ho
    exact more c a c₁ bs c' hmore h hm hlt (ih bs c' hmore hmore)

/-! ## Elements as long as a step says so -/

section Collect

variable {step : Parser ι (Option (α × Bool))}

lemma collect_of_none (h : step c = .ok none c') : collect step c = .ok [] c' := by
  rw [collect, h]

lemma collect_of_stays {goOn : Bool} (h : step c = .ok (some (a, goOn)) c')
    (hstays : ¬ (goOn ∧ c'.rest.length < c.rest.length)) : collect step c = .ok [a] c' := by
  rw [collect, h]
  exact if_neg hstays

lemma collect_of_last (h : step c = .ok (some (a, false)) c') : collect step c = .ok [a] c' :=
  collect_of_stays h fun hmore => Bool.false_ne_true hmore.1

lemma collect_of_some (h : step c = .ok (some (a, true)) c₁)
    (hlt : c₁.rest.length < c.rest.length) :
    collect step c = Outcome.prepend a (collect step c₁) := by
  rw [collect, h]
  exact if_pos ⟨rfl, hlt⟩

lemma collect_of_error (h : step c = .error f c') : collect step c = .error f c' := by
  rw [collect, h]

/-- Collecting ends with a step that gives nothing, or after an element; otherwise it goes on
behind an element. -/
lemma collect_rounds {motive : Cursor ι → Outcome ι (List α) → Prop}
    (fails : ∀ c f c₁, step c = .error f c₁ → motive c (.error f c₁))
    (done : ∀ c c₁, step c = .ok none c₁ → motive c (.ok [] c₁))
    (last : ∀ c a goOn c₁, step c = .ok (some (a, goOn)) c₁ →
      ¬ (goOn ∧ c₁.rest.length < c.rest.length) → motive c (.ok [a] c₁))
    (more : ∀ c a c₁, step c = .ok (some (a, true)) c₁ → c₁.rest.length < c.rest.length →
      motive c₁ (collect step c₁) → motive c (Outcome.prepend a (collect step c₁)))
    (c : Cursor ι) : motive c (collect step c) := by
  induction hk : c.rest.length using Nat.strongRecOn generalizing c with
  | _ k ih =>
    cases hstep : step c with
    | error f c₁ =>
      rw [collect_of_error hstep]
      exact fails c f c₁ hstep
    | ok o c₁ =>
      obtain _ | ⟨a, goOn⟩ := o
      · rw [collect_of_none hstep]
        exact done c c₁ hstep
      · by_cases hmore : goOn ∧ c₁.rest.length < c.rest.length
        · obtain ⟨rfl, hlt⟩ := hmore
          rw [collect_of_some hstep hlt]
          exact more c a c₁ hstep hlt (ih _ (by rw [← hk]; exact hlt) _ rfl)
        · rw [collect_of_stays hstep hmore]
          exact last c a goOn c₁ hstep hmore

lemma collect_inv (h : collect step c = .ok as c') :
    (step c = .ok none c' ∧ as = []) ∨ (∃ a goOn, step c = .ok (some (a, goOn)) c' ∧ as = [a] ∧
      ¬ (goOn ∧ c'.rest.length < c.rest.length)) ∨
      ∃ a goOn c₁ bs, step c = .ok (some (a, goOn)) c₁ ∧ c₁.rest.length < c.rest.length ∧
        collect step c₁ = .ok bs c' ∧ as = a :: bs := by
  cases hstep : step c with
  | error f c₁ =>
    rw [collect_of_error hstep] at h
    cases h
  | ok o c₁ =>
    obtain _ | ⟨a, goOn⟩ := o
    · rw [collect_of_none hstep] at h
      cases h
      exact .inl ⟨rfl, rfl⟩
    · by_cases hmore : goOn ∧ c₁.rest.length < c.rest.length
      · obtain ⟨rfl, hlt⟩ := hmore
        rw [collect_of_some hstep hlt] at h
        obtain ⟨bs, hmore, rfl⟩ := prepend_inv h
        exact .inr (.inr ⟨a, true, c₁, bs, rfl, hlt, hmore, rfl⟩)
      · rw [collect_of_stays hstep hmore] at h
        cases h
        exact .inr (.inl ⟨a, goOn, rfl, rfl, hmore⟩)

/-- Induction over the elements that are collected. -/
lemma collect_induction {motive : ∀ c as c', collect step c = .ok as c' → Prop}
    (done : ∀ c c' h, step c = .ok none c' → motive c [] c' h)
    (last : ∀ c a goOn c' h, step c = .ok (some (a, goOn)) c' → motive c [a] c' h)
    (more : ∀ c a goOn c₁ as c' h h', step c = .ok (some (a, goOn)) c₁ → motive c₁ as c' h →
      motive c (a :: as) c' h')
    {c : Cursor ι} {as : List α} {c' : Cursor ι} (h : collect step c = .ok as c') :
    motive c as c' h := by
  refine collect_rounds (motive := fun c o => ∀ as c'
    (h : collect step c = .ok as c'), o = .ok as c' → motive c as c' h) ?_ ?_ ?_ ?_ c as c' h h
  · intro c f c₁ _ as c' _ ho
    cases ho
  · rintro c c₁ hstep as c' h ⟨⟩
    exact done c c₁ h hstep
  · rintro c a goOn c₁ hstep _ as c' h ⟨⟩
    exact last c a goOn c₁ h hstep
  · intro c a c₁ hstep _ ih as c' h ho
    obtain ⟨bs, hmore, rfl⟩ := prepend_inv ho
    exact more c a true c₁ bs c' hmore h hstep (ih bs c' hmore hmore)

/-- Collecting fails only where a step does. -/
lemma collect_error_inv (h : collect step c = .error f c') :
    ∃ d, step d = .error f c' ∧ d.rest.length ≤ c.rest.length := by
  refine collect_rounds (motive := fun c o => o = .error f c' →
    ∃ d, step d = .error f c' ∧ d.rest.length ≤ c.rest.length) ?_ ?_ ?_ ?_ c h
  · rintro c f c₁ hstep ⟨⟩
    exact ⟨c, hstep, Nat.le_refl _⟩
  · intro c c₁ _ ho
    cases ho
  · intro c a goOn c₁ _ _ ho
    cases ho
  · intro c a c₁ _ hlt ih ho
    obtain ⟨d, hd, hle⟩ := ih (prepend_error_inv ho)
    exact ⟨d, hd, Nat.le_trans hle (Nat.le_of_lt hlt)⟩

end Collect

/-! ## Items up to a stop -/

section TakeUntil

variable [Item ι] {stop : Parser ι β} {b : β} {item : Located ι} {rest : List (Located ι)}

lemma takeUntil_of_ok (h : stop c.fork = .ok b c₁) : takeUntil stop c = .ok [] c := by
  rw [takeUntil, h]

lemma takeUntil_of_fatal (h : stop c.fork = .error f c₁) (hf : f.fatal = true) :
    takeUntil stop c = .error f c := by
  rw [takeUntil, h]
  exact if_pos hf

lemma takeUntil_of_nil (h : stop c.fork = .error f c₁) (hf : f.fatal = false)
    (hrest : c.rest = []) :
    takeUntil stop c = .error (Failure.endOfInput c.span).toFatal c := by
  rw [takeUntil, h]
  dsimp only
  rw [if_neg (by simp [hf])]
  split
  · rfl
  · rename_i hcons
    rw [hrest] at hcons
    cases hcons

lemma takeUntil_of_cons (h : stop c.fork = .error f c₁) (hf : f.fatal = false)
    (hrest : c.rest = item :: rest) :
    takeUntil stop c = Outcome.prepend item (takeUntil stop (c.pass item rest)) := by
  rw [takeUntil, h]
  dsimp only
  rw [if_neg (by simp [hf])]
  split
  · rename_i hnil
    rw [hrest] at hnil
    cases hnil
  · rename_i hcons
    rw [hrest] at hcons
    cases hcons
    rfl

/-- Items are passed one by one as long as `stop` does not match. -/
lemma takeUntil_rounds {motive : Cursor ι → Outcome ι (List (Located ι)) → Prop}
    (found : ∀ c b c₁, stop c.fork = .ok b c₁ → motive c (.ok [] c))
    (fatal : ∀ c f c₁, stop c.fork = .error f c₁ → f.fatal = true → motive c (.error f c))
    (ends : ∀ c f c₁, stop c.fork = .error f c₁ → f.fatal = false → c.rest = [] →
      motive c (.error (Failure.endOfInput c.span).toFatal c))
    (pass : ∀ c f c₁ item rest, stop c.fork = .error f c₁ → f.fatal = false →
      c.rest = item :: rest → motive (c.pass item rest) (takeUntil stop (c.pass item rest)) →
        motive c (Outcome.prepend item (takeUntil stop (c.pass item rest))))
    (c : Cursor ι) : motive c (takeUntil stop c) := by
  induction hk : c.rest.length using Nat.strongRecOn generalizing c with
  | _ k ih =>
    cases hstop : stop c.fork with
    | ok b c₁ =>
      rw [takeUntil_of_ok hstop]
      exact found c b c₁ hstop
    | error f c₁ =>
      cases hf : f.fatal with
      | true =>
        rw [takeUntil_of_fatal hstop hf]
        exact fatal c f c₁ hstop hf
      | false =>
        cases hrest : c.rest with
        | nil =>
          rw [takeUntil_of_nil hstop hf hrest]
          exact ends c f c₁ hstop hf hrest
        | cons item rest =>
          rw [takeUntil_of_cons hstop hf hrest]
          exact pass c f c₁ item rest hstop hf hrest
            (ih _ (by rw [← hk, hrest]; exact Nat.lt_succ_self _) _ rfl)

lemma takeUntil_induction {motive : ∀ c as c', takeUntil stop c = .ok as c' → Prop}
    (found : ∀ c b c₁ h, stop c.fork = .ok b c₁ → motive c [] c h)
    (pass : ∀ c f c₁ item rest as c' h h', stop c.fork = .error f c₁ → c.rest = item :: rest →
      motive (c.pass item rest) as c' h → motive c (item :: as) c' h')
    {c : Cursor ι} {as : List (Located ι)} {c' : Cursor ι} (h : takeUntil stop c = .ok as c') :
    motive c as c' h := by
  refine takeUntil_rounds (motive := fun c o => ∀ as c'
    (h : takeUntil stop c = .ok as c'), o = .ok as c' → motive c as c' h) ?_ ?_ ?_ ?_ c as c' h h
  · rintro c b c₁ hstop as c' h ⟨⟩
    exact found c b c₁ h hstop
  · intro c f c₁ _ _ as c' _ ho
    cases ho
  · intro c f c₁ _ _ _ as c' _ ho
    cases ho
  · intro c f c₁ item rest hstop _ hrest ih as c' h ho
    obtain ⟨bs, hmore, rfl⟩ := prepend_inv ho
    exact pass c f c₁ item rest bs c' hmore h hstop hrest (ih bs c' hmore hmore)

end TakeUntil

/-! ## Rules that are given in terms of themselves -/

/-- What holds where a rule is not applied again, and of the rules if it holds of those that they
are given in terms of, holds of every rule. -/
lemma fix_induction {κ : Type} [Item ι] {size : Cursor ι → Nat}
    {rules : (κ → Parser ι α) → κ → Parser ι α} {motive : κ → Cursor ι → Outcome ι α → Prop}
    (fails : ∀ k c, motive k c (failHere c.unexpected c))
    (rule : ∀ g, (∀ k c, motive k c (g k c)) → ∀ k c, motive k c (rules g k c)) (k : κ)
    (c : Cursor ι) : motive k c (fix size rules k c) := by
  induction hsize : size c using Nat.strongRecOn generalizing c k with
  | _ n ih =>
    rw [fix]
    refine rule _ (fun k' c' => ?_) k c
    split
    · rename_i hless
      exact ih _ (by rw [← hsize]; exact hless) k' c' rfl
    · exact fails k' c'

end Formulary.Parsing
