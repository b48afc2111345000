/-
# Where values are read

A parser of tokens goes on along a row that lies in a text.  What it gives covers parts of the text
that lie one after the other, from the next token on where it begins up to the last token that it
passes.  This goes through every combinator: what one step gives ends before the next step begins,
a branch that failed was read on a fork, and the tokens of a group lie between the ends of the
group.
-/
import Formulary.Proofs.Grammar.Balance
import Formulary.Proofs.Parsing.Following
import Formulary.Proofs.Token.Lined

namespace Formulary

open Text Parsing Token

variable {α β : Type} {text : List Char} {c c' c₁ inner : Cursor Token}

/-! ## Cursors -/

/-- The tokens to come lie one after the other between the token just passed and the end of the
row, which are places of the text. -/
structure Sound (text : List Char) (c : Cursor Token) : Prop where
  orderly : Orderly (Cut {} text) c.previousEnd.byte c.stop.byte c.rest
  previousEnd : Place text c.previousEnd
  stop : Place text c.stop

/-- The second cursor is as far in the row as the first one, or further. -/
structure Onward (text : List Char) (c c' : Cursor Token) : Prop where
  sound : Sound text c'
  previousEnd_le : c.previousEnd.byte ≤ c'.previousEnd.byte
  position_le : c.position.byte ≤ c'.position.byte
  stop_eq : c'.stop = c.stop

lemma Token.Cut.partOf {t : Located Token} (h : Cut {} text t) : t.span.PartOf text := by
  obtain ⟨before, cs, after, rfl, hspan, -⟩ := h
  exact ⟨before, cs, after, rfl, hspan⟩

lemma Sound.position_bounds (h : Sound text c) :
    c.previousEnd.byte ≤ c.position.byte ∧ c.position.byte ≤ c.stop.byte := by
  have horderly := h.orderly
  unfold Cursor.position Cursor.span
  cases hrest : c.rest with
  | nil => exact ⟨by rw [hrest] at horderly; exact horderly.le, Nat.le_refl _⟩
  | cons t rest =>
    rw [hrest] at horderly
    cases horderly with
    | cons _ hlo hle _ tail => exact ⟨hlo, Nat.le_trans hle tail.le⟩

lemma Sound.position (h : Sound text c) : Place text c.position := by
  have horderly := h.orderly
  unfold Cursor.position Cursor.span
  cases hrest : c.rest with
  | nil => exact h.stop
  | cons t rest =>
    rw [hrest] at horderly
    cases horderly with
    | cons here _ _ _ _ => exact here.partOf.start

lemma Sound.refl (h : Sound text c) : Onward text c c :=
  ⟨h, Nat.le_refl _, Nat.le_refl _, rfl⟩

lemma Sound.fork (h : Sound text c) : Sound text c.fork := ⟨h.orderly, h.previousEnd, h.stop⟩

lemma Onward.trans (h : Onward text c c₁) (h' : Onward text c₁ c') : Onward text c c' :=
  ⟨h'.sound, Nat.le_trans h.previousEnd_le h'.previousEnd_le,
    Nat.le_trans h.position_le h'.position_le, h'.stop_eq.trans h.stop_eq⟩

/-- What is recorded on the cursors does not matter. -/
lemma Onward.of_fork (h : Onward text c.fork c'.fork) : Onward text c c' :=
  ⟨⟨h.sound.orderly, h.sound.previousEnd, h.sound.stop⟩, h.previousEnd_le, h.position_le, h.stop_eq⟩

lemma Onward.adopt (h : Onward text c.fork c') : Onward text c (c.adopt c') := by
  refine Onward.of_fork ?_
  rw [fork_adopt]
  exact ⟨⟨h.sound.orderly, h.sound.previousEnd, h.sound.stop⟩, h.previousEnd_le, h.position_le,
    h.stop_eq⟩

lemma previousEnd_adopt (c c' : Cursor Token) : (c.adopt c').previousEnd = c'.previousEnd :=
  show (c.adopt c').fork.previousEnd = c'.fork.previousEnd by rw [fork_adopt]

lemma Sound.pass {t : Located Token} {rest : List (Located Token)} (h : Sound text c)
    (hrest : c.rest = t :: rest) : Onward text c (c.pass t rest) ∧
      Ascending c.position.byte (c.pass t rest).previousEnd.byte [t.span] ∧ Cut {} text t := by
  have horderly := h.orderly
  have hposition : c.position = t.span.start := by
    rw [Cursor.position, Cursor.span, hrest]
  rw [hrest] at horderly
  cases horderly with
  | cons here hlo hle _ tail =>
    have hsound : Sound text (c.pass t rest) := ⟨tail, here.partOf.stop, h.stop⟩
    refine ⟨⟨hsound, Nat.le_trans hlo hle, ?_, rfl⟩, ?_, here⟩
    · rw [hposition]
      exact Nat.le_trans hle hsound.position_bounds.1
    · rw [hposition]
      exact ascending_singleton (Nat.le_refl _) hle (Nat.le_refl _)

/-- What begins with the next token and ends with the last one that was passed. -/
lemma Onward.covers (hc : Sound text c) (h : Onward text c c')
    (hle : c.position.byte ≤ c'.previousEnd.byte) : (c'.spanFrom c.span).PartOf text ∧
      Ascending c.position.byte c'.previousEnd.byte [c'.spanFrom c.span] :=
  ⟨Span.partOf_of_place hc.position h.sound.previousEnd hle,
    ascending_singleton (Nat.le_refl _) hle (Nat.le_refl _)⟩

/-! ## Steps -/

/-- The parser goes on along the row, and its value covers spans that lie one after the other
between the next token and the last one that it passes. -/
def Lays (text : List Char) (m : Parser Token α) (v : α → List Span) (Q : α → Prop) : Prop :=
  ∀ ⦃c a c'⦄, Sound text c → m c = .ok a c' →
    Onward text c c' ∧ Ascending c.position.byte c'.previousEnd.byte (v a) ∧ Q a

variable {m : Parser Token α} {v : α → List Span} {Q : α → Prop}

lemma Lays.mono {R : α → Prop} (h : Lays text m v Q) (himp : ∀ a, Q a → R a) : Lays text m v R :=
  fun _ _ _ hc hrun => (h hc hrun).imp_right (And.imp_right (himp _))

/-- What a value covers may be forgotten. -/
lemma Lays.forget (h : Lays text m v Q) : Lays text m (fun _ => []) fun _ => True :=
  fun _ _ _ hc hrun => ⟨(h hc hrun).1, trivial, trivial⟩

lemma lays_pure {a : α} (hval : v a = []) (hQ : Q a) : Lays text (pure a : Parser Token α) v Q := by
  intro c b c' hc hrun
  obtain ⟨rfl, rfl⟩ := pure_inv hrun
  exact ⟨hc.refl, by rw [hval]; trivial, hQ⟩

/-- A step whose value covers nothing that matters. -/
lemma lays_skip {f : β → Parser Token α} {k : Parser Token β} {w : β → List Span} {R : β → Prop}
    (h : Lays text k w R) (hf : ∀ b, R b → Lays text (f b) v Q) : Lays text (k >>= f) v Q := by
  intro c a c' hc hrun
  obtain ⟨b, c₁, hk, hrun⟩ := bind_inv hrun
  obtain ⟨honward, -, hR⟩ := h hc hk
  obtain ⟨honward', hspans, hQ⟩ := hf b hR honward.sound hrun
  exact ⟨honward.trans honward', hspans.mono honward.position_le (Nat.le_refl _), hQ⟩

/-- The value covers what the parts cover that it is made of. -/
lemma lays_map {k : Parser Token β} {w : β → List Span} {R : β → Prop} {f : β → α}
    (h : Lays text k w R) (hval : ∀ b, v (f b) = w b) (hQ : ∀ b, R b → Q (f b)) :
    Lays text (do return f (← k)) v Q := by
  intro c a c' hc hrun
  obtain ⟨b, c₁, hk, hrun⟩ := bind_inv hrun
  obtain ⟨rfl, rfl⟩ := pure_inv hrun
  obtain ⟨honward, hspans, hR⟩ := h hc hk
  exact ⟨honward, by rwa [hval], hQ b hR⟩

/-- What is covered first lies before what is covered afterwards. -/
lemma Onward.append {ss ts : List Span} (h : Onward text c c₁) (h' : Onward text c₁ c')
    (hss : Ascending c.position.byte c₁.previousEnd.byte ss)
    (hts : Ascending c₁.position.byte c'.previousEnd.byte ts) :
    Ascending c.position.byte c'.previousEnd.byte (ss ++ ts) := by
  cases ss with
  | nil => exact hts.mono h.position_le (Nat.le_refl _)
  | cons s ss =>
    exact hss.append (hts.mono h.sound.position_bounds.1 (Nat.le_refl _)) h'.previousEnd_le
      hss.le_of_cons

/-- Two steps, each of which adds to what the value covers. -/
lemma lays_append {f : β → Parser Token α} {k : Parser Token β} {w : β → List Span} {R : β → Prop}
    {u : α → List Span} (h : Lays text k w R)
    (hf : ∀ b, R b → Lays text (f b) u fun a => v a = w b ++ u a ∧ Q a) :
    Lays text (k >>= f) v Q := by
  intro c a c' hc hrun
  obtain ⟨b, c₁, hk, hrun⟩ := bind_inv hrun
  obtain ⟨honward, hspans, hR⟩ := h hc hk
  obtain ⟨honward', hspans', hval, hQ⟩ := hf b hR honward.sound hrun
  refine ⟨honward.trans honward', ?_, hQ⟩
  rw [hval]
  exact honward.append honward' hspans hspans'

/-- A last step whose value does not matter. -/
lemma lays_before {k : Parser Token β} {w : β → List Span} {R : β → Prop} (h : Lays text m v Q)
    (hk : Lays text k w R) :
    Lays text (do let a ← m; let _ ← k; return a) v Q := by
  intro c a c' hc hrun
  obtain ⟨b, c₁, hm, hrun⟩ := bind_inv hrun
  obtain ⟨_, c₂, hk', hrun⟩ := bind_inv hrun
  obtain ⟨rfl, rfl⟩ := pure_inv hrun
  obtain ⟨honward, hspans, hQ⟩ := h hc hm
  obtain ⟨honward', -⟩ := hk honward.sound hk'
  exact ⟨honward.trans honward', hspans.mono (Nat.le_refl _) honward'.previousEnd_le, hQ⟩

lemma lays_satisfying (what : String) (holds : Token → Bool) :
    Lays text (Parsing.satisfying what holds) (fun t => [t.span]) fun t =>
      holds t.value = true ∧ Cut {} text t := by
  intro c t c' hc hrun
  unfold Parsing.satisfying at hrun
  split at hrun
  · rename_i item rest hrest
    split at hrun
    · rename_i hholds
      cases hrun
      obtain ⟨honward, hspan, hcut⟩ := hc.pass hrest
      exact ⟨honward, hspan, hholds, hcut⟩
    · cases hrun
  · cases hrun

/-! ## Choices and repetition -/

lemma lays_optional (h : Lays text m v Q) :
    Lays text (Parsing.optional m) (fun o => o.elim [] v) fun o => ∀ a ∈ o, Q a := by
  intro c o c' hc hrun
  rcases optional_run_inv hrun with ⟨a, c₁, hm, rfl, rfl⟩ | ⟨rfl, f, rfl⟩
  · obtain ⟨honward, hspans, hQ⟩ := h hc.fork hm
    refine ⟨honward.adopt, ?_, fun b hb => by cases hb; exact hQ⟩
    rw [previousEnd_adopt]
    exact hspans
  · exact ⟨Onward.of_fork hc.fork.refl, trivial, nofun⟩

lemma lays_choice {ms : List (Parser Token α)} (h : ∀ m ∈ ms, Lays text m v Q) :
    Lays text (choice ms) v Q := by
  induction ms with
  | nil =>
    intro c a c' _ hrun
    cases hrun
  | cons m ms ih =>
    rw [List.forall_mem_cons] at h
    intro c a c' hc hrun
    rw [choice] at hrun
    obtain ⟨o, c₁, hopt, hrun⟩ := bind_inv hrun
    obtain ⟨honward, hspans, hQ⟩ := lays_optional h.1 hc hopt
    cases o with
    | some b =>
      obtain ⟨rfl, rfl⟩ := pure_inv hrun
      exact ⟨honward, hspans, hQ a rfl⟩
    | none =>
      obtain ⟨honward', hspans', hQ'⟩ := ih h.2 honward.sound hrun
      exact ⟨honward.trans honward', hspans'.mono honward.position_le (Nat.le_refl _), hQ'⟩

lemma lays_notAhead {forbidden : Parser Token β} (h : Lays text m v Q) :
    Lays text (notAhead forbidden m) v Q := by
  intro c a c' hc hrun
  unfold notAhead at hrun
  split at hrun
  · cases hrun
  · split at hrun
    · cases hrun
    · exact h hc hrun

lemma lays_many (h : Lays text m v Q) :
    Lays text (many m) (fun as => as.flatMap v) fun as => ∀ a ∈ as, Q a := by
  intro c as c' hc hrun
  induction hrun using many_induction with
  | stop c f c₁ _ hm hf => exact ⟨Onward.of_fork hc.fork.refl, trivial, List.forall_mem_nil _⟩
  | idle c a c₁ _ hm hle => exact ⟨hc.refl, trivial, List.forall_mem_nil _⟩
  | more c a c₁ as c' _ _ hm hlt ih =>
    obtain ⟨honward, hspans, hQ⟩ := h hc.fork hm
    have honward := honward.adopt
    rw [← previousEnd_adopt c c₁] at hspans
    obtain ⟨honward', hspans', hQs⟩ := ih honward.sound
    refine ⟨honward.trans honward', ?_, List.forall_mem_cons.mpr ⟨hQ, hQs⟩⟩
    exact honward.append honward' hspans hspans'

lemma lays_collect {step : Parser Token (Option (α × Bool))}
    (h : Lays text step (fun o => o.elim [] fun b => v b.1) fun o => ∀ b ∈ o, Q b.1) :
    Lays text (collect step) (fun as => as.flatMap v) fun as => ∀ a ∈ as, Q a := by
  intro c as c' hc hrun
  induction hrun using collect_induction with
  | done c c' _ hstep =>
    obtain ⟨honward, -⟩ := h hc hstep
    exact ⟨honward, trivial, List.forall_mem_nil _⟩
  | last c a goOn c' _ hstep =>
    obtain ⟨honward, hspans, hQ⟩ := h hc hstep
    refine ⟨honward, ?_, List.forall_mem_singleton.mpr (hQ _ rfl)⟩
    show Ascending _ _ (List.flatMap v [a])
    rw [List.flatMap_singleton]
    exact hspans
  | more c a goOn c₁ as c' _ _ hstep ih =>
    obtain ⟨honward, hspans, hQ⟩ := h hc hstep
    obtain ⟨honward', hspans', hQs⟩ := ih honward.sound
    refine ⟨honward.trans honward', ?_, List.forall_mem_cons.mpr ⟨hQ _ rfl, hQs⟩⟩
    exact honward.append honward' hspans hspans'

lemma lays_separated {element : Parser Token (Option α)} {separator : Parser Token β}
    {w : β → List Span} {R : β → Prop}
    (h : Lays text element (fun o => o.elim [] v) fun o => ∀ a ∈ o, Q a)
    (hseparator : Lays text separator w R) :
    Lays text (separated element separator) (fun as => as.flatMap v) fun as => ∀ a ∈ as, Q a := by
  refine lays_collect fun c o c' hc hrun => ?_
  obtain ⟨o₁, c₁, helement, hrun⟩ := bind_inv hrun
  obtain ⟨honward, hspans, hQ⟩ := h hc helement
  cases o₁ with
  | none =>
    obtain ⟨rfl, rfl⟩ := pure_inv hrun
    exact ⟨honward, trivial, nofun⟩
  | some a =>
    obtain ⟨o₂, c₂, hsep, hrun⟩ := bind_inv hrun
    obtain ⟨rfl, rfl⟩ := pure_inv hrun
    obtain ⟨honward', -⟩ := lays_optional hseparator honward.sound hsep
    refine ⟨honward.trans honward', hspans.mono (Nat.le_refl _) honward'.previousEnd_le, ?_⟩
    rintro b ⟨⟩
    exact hQ a rfl

/-! ## Groups and recursion -/

/-- A group is passed, and the cursor at the beginning of its contents stands between its ends. -/
structure Entered (text : List Char) (c inner c' : Cursor Token) : Prop where
  onward : Onward text c c'
  sound : Sound text inner
  position_le : c.position.byte ≤ inner.position.byte
  stop_eq : inner.stop = c'.previousEnd

/-- The tokens of a group lie between its ends. -/
lemma Sound.enter {kind : GroupKind} {tokens rest : List (Located Token)} {span : Span}
    (h : Sound text c) (hrest : c.rest = ⟨.group kind tokens, span⟩ :: rest) :
    Sound text (Cursor.before tokens span) := by
  have horderly := h.orderly
  rw [hrest] at horderly
  cases horderly with
  | cons here _ _ inside _ => exact ⟨inside kind tokens rfl, here.partOf.start, here.partOf.stop⟩

lemma Sound.groupOf {what : String} {accepts : GroupKind → Bool} (h : Sound text c)
    (hrun : Grammar.groupOf what accepts c = .ok inner c') : Entered text c inner c' := by
  obtain ⟨kind, tokens, span, rest, -, hrest, rfl, rfl⟩ := Grammar.groupOf_inv hrun
  have hposition : c.position = span.start := by
    rw [Cursor.position, Cursor.span, hrest]
  have hinner := h.enter hrest
  refine ⟨(h.pass hrest).1, hinner, ?_, rfl⟩
  rw [hposition]
  exact hinner.position_bounds.1

lemma Entered.before {c₀ : Cursor Token} (h : Onward text c₀ c) (h' : Entered text c inner c') :
    Entered text c₀ inner c' :=
  ⟨h.trans h'.onward, h'.sound, Nat.le_trans h.position_le h'.position_le, h'.stop_eq⟩

/-- The group is passed even if it is empty. -/
lemma Entered.position_le_previousEnd (h : Entered text c inner c') :
    c.position.byte ≤ c'.previousEnd.byte := by
  rw [← h.stop_eq]
  exact Nat.le_trans h.position_le h.sound.position_bounds.2

/-- What is read in a group lies between its ends. -/
lemma Entered.within {a : α} {c₂ : Cursor Token} (h : Entered text c inner c')
    (hm : Lays text m v Q) (hrun : Parsing.within inner m c' = .ok a c₂) :
    c₂ = c' ∧ Ascending c.position.byte c'.previousEnd.byte (v a) ∧ Q a := by
  obtain ⟨rfl, c₁, hinner, -⟩ := within_inv hrun
  obtain ⟨honward, hspans, hQ⟩ := hm h.sound hinner
  refine ⟨rfl, hspans.mono h.position_le ?_, hQ⟩
  rw [← h.stop_eq, ← honward.stop_eq]
  exact honward.sound.orderly.le

lemma lays_inGroup {group : Parser Token (Cursor Token)}
    (hgroup : ∀ ⦃c inner c'⦄, Sound text c → group c = .ok inner c' → Entered text c inner c')
    (hm : Lays text m v Q) : Lays text (do within (← group) m) v Q := by
  intro c a c' hc hrun
  obtain ⟨inner, c₁, hpass, hrun⟩ := bind_inv hrun
  have hentered := hgroup hc hpass
  obtain ⟨rfl, hspans, hQ⟩ := hentered.within hm hrun
  exact ⟨hentered.onward, hspans, hQ⟩

/-- A rule lays out what it gives if the rules do under the assumption that every rule does. -/
theorem lays_fix {κ : Type} {size : Cursor Token → Nat}
    {rules : (κ → Parser Token α) → κ → Parser Token α}
    (h : ∀ g, (∀ k, Lays text (g k) v Q) → ∀ k, Lays text (rules g k) v Q) (k : κ) :
    Lays text (fix size rules k) v Q := fun c =>
  fix_induction (motive := fun _ c o => ∀ ⦃a c'⦄, Sound text c → o = .ok a c' →
      Onward text c c' ∧ Ascending c.position.byte c'.previousEnd.byte (v a) ∧ Q a)
    (fun _ _ _ _ _ hrun => by cases hrun) (fun g hg k c => @h g (fun k c => hg k c) k c) k c

end Formulary
