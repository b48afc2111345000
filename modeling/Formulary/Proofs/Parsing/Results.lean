/-
# What a parser gives

A property of everything that a parser gives when it succeeds, wherever it starts.  The property
of a combinator follows from those of its parts.  A rule that is tied by `fix` gives what has the
property if the rules do under the assumption that every rule does.
-/
import Formulary.Proofs.Parsing.Reads

namespace Formulary.Parsing

open Text

variable {ι α β γ κ : Type}

/-- Whatever the parser gives has the property. -/
def Gives (m : Parser ι α) (P : α → Prop) : Prop := ∀ ⦃c a c'⦄, m c = .ok a c' → P a

variable {m : Parser ι α} {P Q : α → Prop}

lemma gives_true (m : Parser ι α) : Gives m fun _ => True := fun _ _ _ _ => trivial

lemma gives_pure {a : α} (h : P a) : Gives (pure a : Parser ι α) P := by
  intro c b c' hrun
  obtain ⟨rfl, -⟩ := pure_inv hrun
  exact h

lemma gives_throw (f : Failure) : Gives (throw f : Parser ι α) P := by
  intro c a c' hrun
  cases hrun

lemma gives_expected [Item ι] (what : String) : Gives (expected what : Parser ι α) P := by
  intro c a c' hrun
  cases hrun

lemma gives_bind {f : α → Parser ι β} {Q : β → Prop} (h : Gives m P)
    (hf : ∀ a, P a → Gives (f a) Q) : Gives (m >>= f) Q := by
  intro c b c' hrun
  obtain ⟨a, c₁, hm, hrest⟩ := bind_inv hrun
  exact hf a (h hm) hrest

/-- A step whose value does not matter. -/
lemma gives_bind_any {f : α → Parser ι β} {Q : β → Prop} (hf : ∀ a, Gives (f a) Q) :
    Gives (m >>= f) Q :=
  gives_bind (gives_true m) fun a _ => hf a

lemma gives_get {f : Cursor ι → Parser ι β} {Q : β → Prop} (hf : ∀ c, Gives (f c) Q) :
    Gives (get >>= f) Q := gives_bind_any hf

lemma gives_optional (h : Gives m P) : Gives (optional m) fun o => ∀ a ∈ o, P a := by
  intro c o c' hrun
  rw [optional] at hrun
  cases hm : m c.fork with
  | ok a c₁ =>
    rw [hm] at hrun
    cases hrun
    rintro b ⟨⟩
    exact h hm
  | error f c₁ =>
    rw [hm] at hrun
    dsimp only at hrun
    split at hrun
    · cases hrun
    · cases hrun
      rintro b ⟨⟩

lemma gives_choice [Item ι] {ms : List (Parser ι α)} (h : ∀ m ∈ ms, Gives m P) :
    Gives (choice ms) P := by
  induction ms with
  | nil =>
    intro c a c' hrun
    cases hrun
  | cons m ms ih =>
    rw [choice]
    refine gives_bind (gives_optional (h m List.mem_cons_self)) ?_
    rintro (_ | a) ha
    · exact ih fun m' hm' => h m' (List.mem_cons_of_mem m hm')
    · exact gives_pure (ha a rfl)

lemma gives_notAhead [Item ι] {forbidden : Parser ι β} (h : Gives m P) :
    Gives (notAhead forbidden m) P := by
  intro c a c' hrun
  rw [notAhead] at hrun
  split at hrun
  · cases hrun
  · split at hrun
    · cases hrun
    · exact h hrun

lemma gives_many (h : Gives m P) : Gives (many m) fun as => ∀ a ∈ as, P a := by
  intro c as c' hrun
  induction hrun using many_induction with
  | stop c f c₁ _ hm hf => exact List.forall_mem_nil _
  | idle c a c₁ _ hm hle => exact List.forall_mem_nil _
  | more c a c₁ as c' _ _ hm hlt ih => exact List.forall_mem_cons.mpr ⟨h hm, ih⟩

lemma gives_collect {step : Parser ι (Option (α × Bool))}
    (h : Gives step fun o => ∀ b ∈ o, P b.1) : Gives (collect step) fun as => ∀ a ∈ as, P a := by
  intro c as c' hrun
  induction hrun using collect_induction with
  | done c c' _ hstep => exact List.forall_mem_nil _
  | last c a goOn c' _ hstep => exact List.forall_mem_singleton.mpr (h hstep _ rfl)
  | more c a goOn c₁ as c' _ _ hstep ih => exact List.forall_mem_cons.mpr ⟨h hstep _ rfl, ih⟩

lemma gives_separated {element : Parser ι (Option α)} {separator : Parser ι β}
    (h : Gives element fun o => ∀ a ∈ o, P a) :
    Gives (separated element separator) fun as => ∀ a ∈ as, P a := by
  refine gives_collect (gives_bind h ?_)
  rintro (_ | a) ha
  · refine gives_pure ?_
    rintro b ⟨⟩
  · refine gives_bind_any fun o => gives_pure ?_
    rintro b ⟨⟩
    exact ha a rfl

lemma gives_within [Item ι] {inner : Cursor ι} (h : Gives m P) : Gives (within inner m) P := by
  intro c a c' hrun
  obtain ⟨-, c₁, hm, -⟩ := within_inv hrun
  exact h hm

/-- A rule gives what has the property if the rules do under the assumption that every rule
does. -/
theorem gives_fix [Item ι] {size : Cursor ι → Nat} {rules : (κ → Parser ι α) → κ → Parser ι α}
    (h : ∀ g, (∀ k, Gives (g k) P) → ∀ k, Gives (rules g k) P) (k : κ) :
    Gives (fix size rules k) P := fun c =>
  fix_induction (motive := fun _ _ o => ∀ ⦃a c'⦄, o = .ok a c' → P a)
    (fun _ _ _ _ hrun => by cases hrun) (fun g hg k c => @h g (fun k c => hg k c) k c) k c

end Formulary.Parsing
