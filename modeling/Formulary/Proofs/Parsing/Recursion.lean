/-
# Recursive rules

A rule that `fix` ties satisfies the equation that it was given by: the bound on the measure is
never felt, because a rule applies itself again only after it has passed an item or inside of a
group.  Two parsers agree below a bound if they do the same at every cursor whose measure is
less, and lead on to a later part of the same row.  The rules of a grammar raise the bound by
one, which gives the equation.
-/
import Formulary.Proofs.Parsing.Reads

namespace Formulary.Parsing

open Text

variable {ι α β γ κ : Type}

/-- Below the bound `n` both parsers do the same, and success leads to a later part of the
row. -/
def Agrees (weigh : List (Located ι) → Nat) (n : Nat) (m m' : Parser ι α) : Prop :=
  ∀ ⦃c⦄, weigh c.rest < n → m c = m' c ∧ ∀ ⦃a c'⦄, m c = .ok a c' → c'.rest <:+ c.rest

/-- Success leads to a later part of the row. -/
def Advances (m : Parser ι α) : Prop := ∀ ⦃c a c'⦄, m c = .ok a c' → c'.rest <:+ c.rest

/-- Success leads to a later part of the row and passes an item at least. -/
def Passes (m : Parser ι α) : Prop :=
  ∀ ⦃c a c'⦄, m c = .ok a c' → c'.rest <:+ c.rest ∧ c'.rest.length < c.rest.length

/-- The measure falls with every item passed. -/
def Falls (weigh : List (Located ι) → Nat) : Prop :=
  ∀ item rest, weigh rest < weigh (item :: rest)

variable {weigh : List (Located ι) → Nat} {n : Nat}

/-! ## Measures -/

lemma Falls.le_of_suffix (h : Falls weigh) {xs ys : List (Located ι)} (hs : xs <:+ ys) :
    weigh xs ≤ weigh ys := by
  induction ys with
  | nil =>
    obtain rfl := List.suffix_nil.mp hs
    exact Nat.le_refl _
  | cons y ys ih =>
    rcases List.suffix_cons_iff.mp hs with rfl | hs
    · exact Nat.le_refl _
    · exact Nat.le_trans (ih hs) (Nat.le_of_lt (h y ys))

lemma Falls.lt_of_suffix (h : Falls weigh) {xs ys : List (Located ι)} (hs : xs <:+ ys)
    (hlt : xs.length < ys.length) : weigh xs < weigh ys := by
  cases ys with
  | nil => exact absurd hlt (Nat.not_lt_zero _)
  | cons y ys =>
    rcases List.suffix_cons_iff.mp hs with rfl | hs
    · exact absurd hlt (Nat.lt_irrefl _)
    · exact Nat.lt_of_le_of_lt (h.le_of_suffix hs) (h y ys)

lemma falls_length : Falls (List.length : List (Located ι) → Nat) :=
  fun _ _ => Nat.lt_succ_self _

/-! ## Parsers that advance -/

lemma Advances.agrees {m : Parser ι α} (h : Advances m) : Agrees weigh n m m :=
  fun _ _ => ⟨rfl, fun _ _ hrun => h hrun⟩

lemma advances_of_agrees {m : Parser ι α} (h : ∀ n, Agrees List.length n m m) : Advances m :=
  fun c _ _ hrun => (h (c.rest.length + 1) (Nat.lt_succ_self _)).2 hrun

lemma Passes.advances {m : Parser ι α} (h : Passes m) : Advances m := fun _ _ _ hrun => (h hrun).1

lemma Agrees.mono {m m' : Parser ι α} {k : Nat} (h : Agrees weigh n m m') (hk : k ≤ n) :
    Agrees weigh k m m' :=
  fun _ hc => h (Nat.lt_of_lt_of_le hc hk)

lemma advances_pure (a : α) : Advances (pure a : Parser ι α) := by
  intro c b c' h
  obtain ⟨-, rfl⟩ := pure_inv h
  exact List.suffix_refl _

lemma advances_failHere (text : String) : Advances (failHere text : Parser ι α) := by
  intro c a c' h
  cases h

lemma advances_expected [Item ι] (what : String) : Advances (expected what : Parser ι α) := by
  intro c a c' h
  cases h

lemma advances_throw (f : Failure) : Advances (throw f : Parser ι α) := by
  intro c a c' h
  cases h

lemma advances_peek : Advances (peek : Parser ι (Located ι)) := by
  intro c a c' h
  unfold peek at h
  split at h
  · cases h
  · cases h
    exact List.suffix_refl _

/-- A step over the next item. -/
lemma suffix_of_rest_eq {c : Cursor ι} {item : Located ι} {rest : List (Located ι)}
    (h : c.rest = item :: rest) : rest <:+ c.rest ∧ rest.length < c.rest.length := by
  rw [h]
  exact ⟨List.suffix_cons item rest, Nat.lt_succ_self _⟩

lemma passes_next [Item ι] : Passes (next : Parser ι (Located ι)) := by
  intro c a c' h
  unfold next at h
  split at h
  · cases h
  · rename_i hrest
    cases h
    exact suffix_of_rest_eq hrest

lemma passes_satisfying [Item ι] (what : String) (holds : ι → Bool) :
    Passes (satisfying what holds) := by
  intro c a c' h
  unfold satisfying at h
  split at h
  · rename_i hrest
    split at h
    · cases h
      exact suffix_of_rest_eq hrest
    · cases h
  · cases h

/-! ## Sequences -/

section Sequences

variable {m m' : Parser ι α} {f f' : α → Parser ι β}

lemma bind_eq_of_eq {c : Cursor ι} (hm : m c = m' c)
    (hf : ∀ a c', m c = .ok a c' → f a c' = f' a c') : (m >>= f) c = (m' >>= f') c := by
  rw [bind_apply, bind_apply, ← hm]
  cases hrun : m c with
  | ok a c' => exact hf a c' hrun
  | error e c' => rfl

lemma agrees_bind (hw : Falls weigh) (hm : Agrees weigh n m m')
    (hf : ∀ a, Agrees weigh n (f a) (f' a)) : Agrees weigh n (m >>= f) (m' >>= f') := by
  intro c hc
  obtain ⟨heq, hadv⟩ := hm hc
  have hlater {a : α} {c₁ : Cursor ι} (hrun : m c = .ok a c₁) : weigh c₁.rest < n :=
    Nat.lt_of_le_of_lt (hw.le_of_suffix (hadv hrun)) hc
  refine ⟨bind_eq_of_eq heq fun a c₁ hrun => (hf a (hlater hrun)).1, fun b c' hrun => ?_⟩
  obtain ⟨a, c₁, hfirst, hsecond⟩ := bind_inv hrun
  exact ((hf a (hlater hfirst)).2 hsecond).trans (hadv hfirst)

/-- After an item is passed the bound may be lower by one. -/
lemma agrees_bind_of_passes (hw : Falls weigh) (hm : Passes m)
    (hf : ∀ a, Agrees weigh n (f a) (f' a)) : Agrees weigh (n + 1) (m >>= f) (m >>= f') := by
  intro c hc
  have hlater {a : α} {c₁ : Cursor ι} (hrun : m c = .ok a c₁) : weigh c₁.rest < n :=
    Nat.lt_of_lt_of_le (hw.lt_of_suffix (hm hrun).1 (hm hrun).2) (Nat.le_of_lt_succ hc)
  refine ⟨bind_eq_of_eq rfl fun a c₁ hrun => (hf a (hlater hrun)).1, fun b c' hrun => ?_⟩
  obtain ⟨a, c₁, hfirst, hsecond⟩ := bind_inv hrun
  exact ((hf a (hlater hfirst)).2 hsecond).trans (hm hfirst).1

lemma advances_bind (hm : Advances m) (hf : ∀ a, Advances (f a)) : Advances (m >>= f) :=
  advances_of_agrees fun _ => agrees_bind falls_length hm.agrees fun a => (hf a).agrees

lemma passes_bind (hm : Passes m) (hf : ∀ a, Advances (f a)) : Passes (m >>= f) := by
  intro c b c' h
  obtain ⟨a, c₁, hrun, hrest⟩ := bind_inv h
  have hfirst := hm hrun
  have hsecond := hf a hrest
  exact ⟨hsecond.trans hfirst.1, Nat.lt_of_le_of_lt hsecond.length_le hfirst.2⟩

lemma passes_bind_of_advances (hm : Advances m) (hf : ∀ a, Passes (f a)) : Passes (m >>= f) := by
  intro c b c' h
  obtain ⟨a, c₁, hrun, hrest⟩ := bind_inv h
  have hfirst := hm hrun
  have hsecond := hf a hrest
  exact ⟨hsecond.1.trans hfirst, Nat.lt_of_lt_of_le hsecond.2 hfirst.length_le⟩

lemma agrees_get {g g' : Cursor ι → Parser ι β} (h : ∀ c, Agrees weigh n (g c) (g' c)) :
    Agrees weigh n (get >>= g) (get >>= g') :=
  fun c hc => h c hc

end Sequences

lemma agrees_map {m m' : Parser ι α} (hm : Agrees weigh n m m') (f : α → β) :
    Agrees weigh n (f <$> m) (f <$> m') := by
  intro c hc
  obtain ⟨heq, hadv⟩ := hm hc
  refine ⟨?_, fun b c' hrun => ?_⟩
  · show EStateM.map f m c = EStateM.map f m' c
    rw [EStateM.map, EStateM.map, heq]
  · obtain ⟨a, hfirst, -⟩ := map_inv hrun
    exact hadv hfirst

/-! ## Choices -/

lemma agrees_optional {m m' : Parser ι α} (hm : Agrees weigh n m m') :
    Agrees weigh n (optional m) (optional m') := by
  intro c hc
  obtain ⟨heq, hadv⟩ := hm (c := c.fork) hc
  refine ⟨by rw [optional, optional, heq], fun o c' hrun => ?_⟩
  rw [optional] at hrun
  cases hfork : m c.fork with
  | ok a c₁ =>
    rw [hfork] at hrun
    cases hrun
    rw [Cursor.rest_adopt]
    exact hadv hfork
  | error f c₁ =>
    rw [hfork] at hrun
    dsimp only at hrun
    split at hrun
    · cases hrun
    · cases hrun
      exact List.suffix_refl _

/-- Either the branch succeeded and the cursor follows it, or a failure was recorded. -/
lemma optional_run_inv {m : Parser ι α} {c c' : Cursor ι} {o : Option α}
    (h : optional m c = .ok o c') :
    (∃ a c₁, m c.fork = .ok a c₁ ∧ o = some a ∧ c' = c.adopt c₁) ∨
      o = none ∧ ∃ f, c' = c.record f := by
  rw [Parsing.optional] at h
  cases hm : m c.fork with
  | ok a c₁ =>
    rw [hm] at h
    cases h
    exact .inl ⟨a, c₁, rfl, rfl, rfl⟩
  | error f c₁ =>
    rw [hm] at h
    dsimp only at h
    split at h
    · cases h
    · cases h
      exact .inr ⟨rfl, f, rfl⟩

/-- Either the branch succeeded, or nothing was passed. -/
lemma optional_inv {m : Parser ι α} {c c' : Cursor ι} {o : Option α}
    (h : optional m c = .ok o c') :
    (∃ a c₁, m c.fork = .ok a c₁ ∧ o = some a ∧ c'.rest = c₁.rest) ∨
      o = none ∧ c'.rest = c.rest := by
  rcases optional_run_inv h with ⟨a, c₁, hm, ho, rfl⟩ | ⟨ho, f, rfl⟩
  · exact .inl ⟨a, c₁, hm, ho, Cursor.rest_adopt _ _⟩
  · exact .inr ⟨ho, rfl⟩

/-- A choice of parsers that all pass an item passes one. -/
lemma passes_choice [Item ι] {ms : List (Parser ι α)} (h : ∀ m ∈ ms, Passes m) :
    Passes (choice ms) := by
  induction ms with
  | nil => exact fun c a c' hrun => by cases hrun
  | cons m ms ih =>
    intro c a c' hrun
    rw [choice] at hrun
    obtain ⟨o, c₁, hoptional, hrun⟩ := bind_inv hrun
    rcases optional_inv hoptional with ⟨b, c₂, hm, rfl, hrest⟩ | ⟨rfl, hrest⟩
    · obtain ⟨-, rfl⟩ := pure_inv hrun
      rw [hrest]
      exact h m List.mem_cons_self (c := c.fork) hm
    · rw [← hrest]
      exact ih (fun m hm => h m (List.mem_cons_of_mem _ hm)) hrun

lemma agrees_choice_nil [Item ι] :
    Agrees weigh n (choice [] : Parser ι α) (choice []) :=
  fun c _ => ⟨rfl, fun a c' hrun => by cases hrun⟩

lemma agrees_choice_cons [Item ι] (hw : Falls weigh) {m m' : Parser ι α}
    {ms ms' : List (Parser ι α)} (hm : Agrees weigh n m m')
    (hms : Agrees weigh n (choice ms) (choice ms')) :
    Agrees weigh n (choice (m :: ms)) (choice (m' :: ms')) := by
  rw [choice, choice]
  refine agrees_bind hw (agrees_optional hm) ?_
  rintro (_ | a)
  · exact hms
  · exact (advances_pure a).agrees

lemma agrees_notAhead [Item ι] {forbidden : Parser ι β} {m m' : Parser ι α}
    (hm : Agrees weigh n m m') : Agrees weigh n (notAhead forbidden m) (notAhead forbidden m') := by
  intro c hc
  obtain ⟨heq, hadv⟩ := hm hc
  rw [notAhead, notAhead]
  cases forbidden c.fork with
  | ok b c₁ => exact ⟨rfl, fun a c' hrun => by cases hrun⟩
  | error f c₁ =>
    dsimp only
    split
    · exact ⟨rfl, fun a c' hrun => by cases hrun⟩
    · exact ⟨heq, hadv⟩

/-! ## Repetition -/

lemma agrees_many (hw : Falls weigh) {m m' : Parser ι α} (hm : Agrees weigh n m m') :
    Agrees weigh n (many m) (many m') := by
  intro c
  induction hk : c.rest.length using Nat.strongRecOn generalizing c with
  | _ k ih =>
    intro hc
    obtain ⟨heq, hadv⟩ := hm (c := c.fork) hc
    rw [many, many, ← heq]
    cases hfork : m c.fork with
    | error f c₁ =>
      dsimp only
      split
      · exact ⟨rfl, fun a c' hrun => by cases hrun⟩
      · exact ⟨rfl, fun a c' hrun => by cases hrun; exact List.suffix_refl _⟩
    | ok a c₁ =>
      have hsuffix : c₁.rest <:+ c.rest := hadv hfork
      dsimp only
      split
      · rename_i hlt
        have hbelow : weigh (c.adopt c₁).rest < n := by
          rw [Cursor.rest_adopt]
          exact Nat.lt_of_le_of_lt (hw.le_of_suffix hsuffix) hc
        obtain ⟨hmore, hlater⟩ :=
          ih _ (by rw [← hk, Cursor.rest_adopt]; exact hlt) rfl hbelow
        refine ⟨by rw [hmore], fun as c' hrun => ?_⟩
        obtain ⟨bs, hrest, -⟩ := prepend_inv hrun
        have hstep := hlater hrest
        rw [Cursor.rest_adopt] at hstep
        exact hstep.trans hsuffix
      · exact ⟨rfl, fun a c' hrun => by cases hrun; exact List.suffix_refl _⟩

lemma agrees_collect (hw : Falls weigh) {step step' : Parser ι (Option (α × Bool))}
    (hm : Agrees weigh n step step') : Agrees weigh n (collect step) (collect step') := by
  intro c
  induction hk : c.rest.length using Nat.strongRecOn generalizing c with
  | _ k ih =>
    intro hc
    obtain ⟨heq, hadv⟩ := hm hc
    rw [collect, collect, ← heq]
    cases hstep : step c with
    | error f c₁ => exact ⟨rfl, fun a c' hrun => by cases hrun⟩
    | ok o c₁ =>
      have hsuffix : c₁.rest <:+ c.rest := hadv hstep
      cases o with
      | none => exact ⟨rfl, fun a c' hrun => by cases hrun; exact hsuffix⟩
      | some b =>
        obtain ⟨a, goOn⟩ := b
        dsimp only
        split
        · rename_i hlt
          have hbelow : weigh c₁.rest < n := Nat.lt_of_le_of_lt (hw.le_of_suffix hsuffix) hc
          obtain ⟨hmore, hlater⟩ := ih _ (by rw [← hk]; exact hlt.2) rfl hbelow
          refine ⟨by rw [hmore], fun as c' hrun => ?_⟩
          obtain ⟨bs, hrest, -⟩ := prepend_inv hrun
          exact (hlater hrest).trans hsuffix
        · exact ⟨rfl, fun a c' hrun => by cases hrun; exact hsuffix⟩

lemma agrees_separated (hw : Falls weigh) {element element' : Parser ι (Option α)}
    {separator : Parser ι β} (hm : Agrees weigh n element element')
    (hseparator : Advances separator) :
    Agrees weigh n (separated element separator) (separated element' separator) := by
  refine agrees_collect hw (agrees_bind hw hm ?_)
  rintro (_ | a)
  · exact (advances_pure _).agrees
  · exact agrees_bind hw (agrees_optional hseparator.agrees) fun o => (advances_pure _).agrees

/-! ## Groups and recursion -/

lemma agrees_within [Item ι] {inner : Cursor ι} {k : Nat} {m m' : Parser ι α}
    (hm : Agrees weigh n m m') (hinner : weigh inner.rest < n) :
    Agrees weigh k (within inner m) (within inner m') := by
  intro c _
  rw [within, within, (hm hinner).1]
  refine ⟨rfl, fun a c' hrun => ?_⟩
  split at hrun
  · split at hrun
    · cases hrun
      exact List.suffix_refl _
    · cases hrun
  · cases hrun

/-- A rule that is tied by `fix` satisfies its equation if the rules raise every bound by
one. -/
theorem fix_eq [Item ι] {rules : (κ → Parser ι α) → κ → Parser ι α}
    (h : ∀ n g g', (∀ k, Agrees weigh n (g k) (g' k)) →
      ∀ k, Agrees weigh (n + 1) (rules g k) (rules g' k)) (k : κ) :
    fix (fun c => weigh c.rest) rules k = rules (fix (fun c => weigh c.rest) rules) k := by
  let below (n : Nat) (k : κ) : Parser ι α := fun c =>
    if weigh c.rest < n then fix (fun c => weigh c.rest) rules k c
    else failHere c.unexpected c
  have hfix (k : κ) (c : Cursor ι) : fix (fun c => weigh c.rest) rules k c =
      rules (below (weigh c.rest)) k c := by rw [fix]
  -- below a bound the rule advances, as it is given by rules that do
  have hadv : ∀ n k, Agrees weigh n (below n k) (fix (fun c => weigh c.rest) rules k) := by
    intro n
    induction n using Nat.strongRecOn with
    | _ n ih =>
      intro k c hc
      have heq : below n k c = fix (fun c => weigh c.rest) rules k c := if_pos hc
      refine ⟨heq, fun a c' hrun => ?_⟩
      rw [heq, hfix] at hrun
      exact (h _ _ _ (ih _ hc) k (Nat.lt_succ_self _)).2 hrun
  funext c
  rw [hfix]
  exact (h _ _ _ (hadv (weigh c.rest)) k (Nat.lt_succ_self _)).1

end Formulary.Parsing
