/-
# Nothing is lost or read twice

A parser accounts for tokens if what the tokens hold that it passes is what its value holds.  This
goes through every combinator: a branch that failed was read on a fork, so its tokens are still to
come, and the tokens of a group are all passed when the group is.

What is held is counted with multiplicity but without order, since the name of an operator comes
before its operands in a formula.
-/
import Mathlib.Algebra.Order.Group.Multiset
import Mathlib.Data.Multiset.Filter
import Mathlib.Tactic.Abel
import Formulary.Proofs.Formula.Marks
import Formulary.Proofs.Operator.Climbing
import Formulary.Proofs.Parsing.Results

namespace Formulary

open Text Parsing Token

/-- What a row of tokens holds. -/
def tally (tokens : List (Located Token)) : Multiset Mark := ((listLeaves tokens).flatMap marks : List Mark)

/-- If no number without extent is to come, the parser adds to `before` what the passed tokens
hold, and its value has the property. -/
def Accounts {α : Type} (m : Parser Token α) (before : Multiset Mark) (after : α → Multiset Mark)
    (Q : α → Prop) : Prop :=
  ∀ ⦃c a c'⦄, Mark.unplaced ∉ before + tally c.rest → m c = .ok a c' →
    before + tally c.rest = after a + tally c'.rest ∧ Q a

variable {α β : Type} {m : Parser Token α} {k : Multiset Mark} {v : α → Multiset Mark}
  {Q : α → Prop}

/-! ## Rows of tokens -/

@[simp] lemma tally_nil : tally [] = 0 := by simp [tally, listLeaves]

lemma tally_group (kind : GroupKind) (tokens : List (Located Token)) (span : Span)
    (rest : List (Located Token)) :
    tally (⟨.group kind tokens, span⟩ :: rest) = tally tokens + tally rest := by
  simp only [tally, listLeaves, leaves, List.flatMap_append, Multiset.coe_add]

lemma tally_cons {t : Located Token} (h : ∀ kind tokens, t.value ≠ .group kind tokens)
    (rest : List (Located Token)) : tally (t :: rest) = (marks t : Multiset Mark) + tally rest := by
  obtain ⟨token, span⟩ := t
  cases token with
  | group kind tokens => exact absurd rfl (h kind tokens)
  | _ => simp only [tally, listLeaves, leaves, List.singleton_append, List.flatMap_cons,
      Multiset.coe_add]

/-! ## Steps -/

lemma Accounts.mono {R : α → Prop} (h : Accounts m k v Q) (himp : ∀ a, Q a → R a) :
    Accounts m k v R := fun _ _ _ hfree hrun => (h hfree hrun).imp_right (himp _)

lemma accounts_pure {a : α} (hval : k = v a) (hQ : Q a) :
    Accounts (pure a : Parser Token α) k v Q := by
  intro c b c' _ hrun
  obtain ⟨rfl, rfl⟩ := pure_inv hrun
  exact ⟨by rw [hval], hQ⟩

lemma accounts_throw (f : Failure) : Accounts (throw f : Parser Token α) k v Q := by
  intro c a c' _ hrun
  cases hrun

/-- The second step goes on from what the first one leaves. -/
lemma accounts_seq {f : α → Parser Token β} {w : β → Multiset Mark} {R : β → Prop}
    (h : Accounts m k v Q) (hf : ∀ a, Q a → Accounts (f a) (v a) w R) :
    Accounts (m >>= f) k w R := by
  intro c b c' hfree hrun
  obtain ⟨a, c₁, hm, hrest⟩ := bind_inv hrun
  obtain ⟨heq, hQ⟩ := h hfree hm
  rw [heq] at hfree ⊢
  exact hf a hQ hfree hrest

lemma Accounts.frame (h : Accounts m 0 v Q) (k : Multiset Mark) :
    Accounts m k (fun a => k + v a) Q := by
  intro c a c' hfree hrun
  rw [Multiset.mem_add, not_or] at hfree
  obtain ⟨heq, hQ⟩ := h (by rw [zero_add]; exact hfree.2) hrun
  rw [zero_add] at heq
  exact ⟨by rw [heq, add_assoc], hQ⟩

/-- The first step adds to what was there before. -/
lemma accounts_bind {f : α → Parser Token β} {w : β → Multiset Mark} {R : β → Prop}
    (h : Accounts m 0 v Q) (hf : ∀ a, Q a → Accounts (f a) (k + v a) w R) :
    Accounts (m >>= f) k w R := accounts_seq (h.frame k) hf

/-- A step over tokens that hold nothing. -/
lemma accounts_skip {f : α → Parser Token β} {w : β → Multiset Mark} {R : β → Prop}
    (h : Accounts m 0 (fun _ => 0) fun _ => True) (hf : ∀ a, Accounts (f a) k w R) :
    Accounts (m >>= f) k w R :=
  accounts_bind h fun a _ => by rw [add_zero]; exact hf a

lemma accounts_get {f : Cursor Token → Parser Token α} (hf : ∀ c, Accounts (f c) k v Q) :
    Accounts (get >>= f) k v Q := fun c _ _ hfree hrun => hf c hfree hrun

/-- Passing a token that satisfies a condition. -/
lemma accounts_satisfying {what : String} {holds : Token → Bool}
    {v : Located Token → Multiset Mark}
    (h : ∀ t, holds t.value = true → (∀ kind tokens, t.value ≠ .group kind tokens) ∧
      (marks t : Multiset Mark) = v t) :
    Accounts (satisfying what holds) 0 v fun t => holds t.value = true := by
  intro c a c' _ hrun
  unfold Parsing.satisfying at hrun
  split at hrun
  · rename_i item rest hrest
    split at hrun
    · rename_i hholds
      cases hrun
      obtain ⟨hgroup, hmarks⟩ := h _ hholds
      refine ⟨?_, hholds⟩
      rw [hrest, tally_cons hgroup, hmarks, zero_add]
      rfl
    · cases hrun
  · cases hrun

/-! ## Choices and repetition -/

lemma accounts_optional (h : Accounts m k v Q) :
    Accounts (Parsing.optional m) k (fun o => o.elim k v) fun o => ∀ a ∈ o, Q a := by
  intro c o c' hfree hrun
  unfold Parsing.optional at hrun
  cases hm : m c.fork with
  | ok a c₁ =>
    rw [hm] at hrun
    cases hrun
    obtain ⟨heq, hQ⟩ := h (c := c.fork) hfree hm
    refine ⟨?_, fun b hb => by cases hb; exact hQ⟩
    rw [Cursor.rest_adopt]
    exact heq
  | error f c₁ =>
    rw [hm] at hrun
    dsimp only at hrun
    split at hrun
    · cases hrun
    · cases hrun
      exact ⟨rfl, fun b hb => by cases hb⟩

lemma accounts_choice {ms : List (Parser Token α)} (h : ∀ m ∈ ms, Accounts m 0 v Q) :
    Accounts (choice ms) 0 v Q := by
  induction ms with
  | nil =>
    intro c a c' _ hrun
    cases hrun
  | cons m ms ih =>
    rw [List.forall_mem_cons] at h
    rw [choice]
    refine accounts_bind (accounts_optional h.1) ?_
    rintro (_ | a) ha
    · exact ih h.2
    · exact accounts_pure (zero_add _) (ha a rfl)

lemma accounts_notAhead {forbidden : Parser Token β} (h : Accounts m k v Q) :
    Accounts (notAhead forbidden m) k v Q := by
  intro c a c' hfree hrun
  unfold notAhead at hrun
  split at hrun
  · cases hrun
  · split at hrun
    · cases hrun
    · exact h hfree hrun

/-- What is accounted for in the first place and then in the rest is accounted for in all. -/
lemma accounts_of_step {a : α} {as : List α} {c c₁ c' : Cursor Token}
    (hstep : tally c.rest = v a + tally c₁.rest)
    (hmore : tally c₁.rest = (as.map v).sum + tally c'.rest) :
    tally c.rest = ((a :: as).map v).sum + tally c'.rest := by
  rw [hstep, hmore, List.map_cons, List.sum_cons, add_assoc]

lemma accounts_many (h : Accounts m 0 v Q) :
    Accounts (many m) 0 (fun as => (as.map v).sum) fun as => ∀ a ∈ as, Q a := by
  intro c as c' hfree hrun
  rw [zero_add] at hfree ⊢
  induction hrun using many_induction with
  | stop c f c₁ _ hm hf => exact ⟨(zero_add _).symm, List.forall_mem_nil _⟩
  | idle c a c₁ _ hm hle => exact ⟨(zero_add _).symm, List.forall_mem_nil _⟩
  | more c a c₁ as c' _ _ hm hlt ih =>
    obtain ⟨heq, hQ⟩ := h (c := c.fork) (by rwa [zero_add]) hm
    rw [zero_add] at heq
    have hstep : tally c.rest = v a + tally c₁.rest := heq
    rw [Cursor.rest_adopt] at ih
    rw [hstep, Multiset.mem_add, not_or] at hfree
    obtain ⟨hmore, hQs⟩ := ih hfree.2
    exact ⟨accounts_of_step hstep hmore, List.forall_mem_cons.mpr ⟨hQ, hQs⟩⟩

lemma accounts_collect {step : Parser Token (Option (α × Bool))}
    (h : Accounts step 0 (fun o => o.elim 0 fun b => v b.1) fun o => ∀ b ∈ o, Q b.1) :
    Accounts (collect step) 0 (fun as => (as.map v).sum) fun as => ∀ a ∈ as, Q a := by
  intro c as c' hfree hrun
  rw [zero_add] at hfree ⊢
  induction hrun using collect_induction with
  | done c c' _ hstep =>
    obtain ⟨heq, -⟩ := h (by rwa [zero_add]) hstep
    rw [zero_add] at heq
    exact ⟨heq, List.forall_mem_nil _⟩
  | last c a goOn c' _ hstep =>
    obtain ⟨heq, hQ⟩ := h (by rwa [zero_add]) hstep
    rw [zero_add] at heq
    exact ⟨by simpa using heq, List.forall_mem_singleton.mpr (hQ _ rfl)⟩
  | more c a goOn c₁ as c' _ _ hstep ih =>
    obtain ⟨heq, hQ⟩ := h (by rwa [zero_add]) hstep
    rw [zero_add] at heq
    rw [heq, Multiset.mem_add, not_or] at hfree
    obtain ⟨hmore, hQs⟩ := ih hfree.2
    exact ⟨accounts_of_step heq hmore, List.forall_mem_cons.mpr ⟨hQ _ rfl, hQs⟩⟩

lemma accounts_separated {element : Parser Token (Option α)} {separator : Parser Token β}
    (h : Accounts element 0 (fun o => o.elim 0 v) fun o => ∀ a ∈ o, Q a)
    (hseparator : Accounts separator 0 (fun _ => 0) fun _ => True) :
    Accounts (separated element separator) 0 (fun as => (as.map v).sum) fun as => ∀ a ∈ as, Q a := by
  refine accounts_collect (accounts_bind h ?_)
  rintro (_ | a) ha
  · refine accounts_pure (by simp) ?_
    rintro b ⟨⟩
  · refine accounts_bind (accounts_optional hseparator) fun o _ => accounts_pure ?_ ?_
    · cases o <;> simp
    · rintro b ⟨⟩
      exact ha a rfl

/-! ## Groups and recursion -/

lemma accounts_within {inner : Cursor Token} (h : Accounts m 0 v Q) :
    Accounts (within inner m) (tally inner.rest) v Q := by
  intro c a c' hfree hrun
  obtain ⟨rfl, c₁, hm, hnil⟩ := within_inv hrun
  rw [Multiset.mem_add, not_or] at hfree
  obtain ⟨heq, hQ⟩ := h (by rw [zero_add]; exact hfree.1) hm
  rw [zero_add, hnil, tally_nil, add_zero] at heq
  exact ⟨by rw [heq], hQ⟩

/-- A rule accounts for tokens if the rules do under the assumption that every rule does. -/
theorem accounts_fix {κ : Type} {size : Cursor Token → Nat}
    {rules : (κ → Parser Token α) → κ → Parser Token α}
    (h : ∀ g, (∀ k, Accounts (g k) 0 v Q) → ∀ k, Accounts (rules g k) 0 v Q) (k : κ) :
    Accounts (fix size rules k) 0 v Q := fun c =>
  fix_induction (motive := fun _ c o => ∀ ⦃a c'⦄, Mark.unplaced ∉ 0 + tally c.rest →
      o = .ok a c' → 0 + tally c.rest = v a + tally c'.rest ∧ Q a)
    (fun _ _ _ _ _ hrun => by cases hrun) (fun g hg k c => @h g (fun k c => hg k c) k c) k c

end Formulary
