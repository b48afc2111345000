/-
# Folding and precedence climbing

A chain can be folded exactly if its operators stand between operands.  What it is folded to is
the one grouped operation with these links, the same that climbing finds: an operation takes as its
right part everything up to the next operator that binds no tighter than its own.  Climbing is
another way to read a chain, from left to right in a single pass.
-/
import Formulary.Proofs.Operator.Folding

namespace Formulary

open Text Parsing

variable {α β : Type}

/-! ## Chains that alternate -/

/-- The links are operands with one operator between every two of them. -/
def Alternates : List (Link α) → Prop
  | [.operand _] => True
  | .operand _ :: .operator _ :: links => Alternates links
  | _ => False

/-- An operator and the operand to its right. -/
abbrev Step (α : Type) := Located String × α

/-- The links of a step. -/
def Step.links (s : Step α) : List (Link α) := [.operator s.1, .operand s.2]

lemma alternates_cons_iff {a b : α} (links : List (Link α)) :
    Alternates (.operand a :: links) ↔ Alternates (.operand b :: links) := by
  match links with
  | [] => exact Iff.rfl
  | .operand _ :: _ => exact Iff.rfl
  | .operator _ :: _ => exact Iff.rfl

/-- Joining two operands changes nothing about whether the links alternate. -/
lemma alternates_join_iff {a b c : α} {symbol : Located String} {links : List (Link α)} :
    ∀ front : List (Link α),
      Alternates (front ++ .operand a :: .operator symbol :: .operand b :: links) ↔
        Alternates (front ++ .operand c :: links)
  | [] => alternates_cons_iff (a := b) (b := c) links
  | [.operand _] => Iff.rfl
  | [.operator _] => Iff.rfl
  | .operand _ :: .operator _ :: front => alternates_join_iff front
  | .operand _ :: .operand _ :: _ => Iff.rfl
  | .operator _ :: _ :: _ => Iff.rfl

/-- Links that alternate are an operand and steps. -/
lemma exists_of_alternates : ∀ {links : List (Link α)}, Alternates links →
    ∃ (first : α) (steps : List (Step α)), links = .operand first :: steps.flatMap Step.links
  | [.operand a], _ => ⟨a, [], rfl⟩
  | .operand a :: .operator s :: links, h => by
    have hlinks : Alternates links := h
    obtain ⟨b, steps, rfl⟩ := exists_of_alternates hlinks
    exact ⟨a, (s, b) :: steps, rfl⟩

/-! ## Climbing -/

namespace Operation

/-- Goes on from the operation `left` as long as the operators are at least as tight as `bound`.
Gives the operation that was read and the steps that are left. -/
def climb (bound : Nat) (left : Operation α) (steps : List (Step α)) :
    Operation α × { rest : List (Step α) // rest.length ≤ steps.length } :=
  match steps with
  | [] => (left, ⟨[], Nat.le_refl _⟩)
  | (symbol, a) :: steps =>
    if bound ≤ strength symbol.value then
      let (right, ⟨rest, hrest⟩) := climb (strength symbol.value + 1) (operand a) steps
      let (whole, ⟨rest', hrest'⟩) := climb bound (apply symbol left right) rest
      (whole, ⟨rest', Nat.le_succ_of_le (Nat.le_trans hrest' hrest)⟩)
    else (left, ⟨(symbol, a) :: steps, Nat.le_refl _⟩)
termination_by steps.length
decreasing_by
  · exact Nat.lt_succ_self _
  · exact Nat.lt_succ_of_le hrest

/-- The operation that climbing reads from a chain. -/
def ofChain (first : α) (steps : List (Step α)) : Operation α := (climb 0 (operand first) steps).1

/-- The operators that come next bind looser than `bound`. -/
def Looser (bound : Nat) (steps : List (Step α)) : Prop :=
  ∀ s ∈ steps.head?, strength s.1.value < bound

/-- What climbing reads is grouped and at least as tight as demanded, its links are those that were
passed, and it ends only in front of an operator that is too loose. -/
structure Climbed (bound : Nat) (links : List (Link α)) (whole : Operation α)
    (rest : List (Step α)) : Prop where
  grouped : whole.Grouped
  tight : bound ≤ whole.tightness
  looser : Looser bound rest
  links_eq : whole.links ++ rest.flatMap Step.links = links

/-- Every operator is looser than an operand. -/
lemma looser_operand (a : α) (steps : List (Step α)) :
    Looser ((operand a).tightness + 1) steps := fun _ _ => Nat.lt_succ_of_lt (strength_lt _)

lemma climbed_climb {bound : Nat} {left : Operation α} {steps : List (Step α)}
    (hgrouped : left.Grouped) (hbound : bound ≤ left.tightness)
    (hnext : Looser (left.tightness + 1) steps) :
    Climbed bound (left.links ++ steps.flatMap Step.links) (climb bound left steps).1
      (climb bound left steps).2.1 := by
  fun_induction climb bound left steps with
  | case1 bound left =>
    refine ⟨hgrouped, hbound, ?_, rfl⟩
    rintro s ⟨⟩
  | case2 bound left symbol a steps hle right rest hrest hfirst whole rest' hrest' hsecond ihright
      ihwhole =>
    have hleft : strength symbol.value ≤ left.tightness := Nat.le_of_lt_succ (hnext _ rfl)
    have hright := ihright trivial (Nat.succ_le_of_lt (strength_lt _)) (looser_operand a steps)
    rw [hfirst] at hright
    have hwhole := ihwhole ⟨hleft, hright.tight, hgrouped, hright.grouped⟩ hle hright.looser
    rw [hsecond] at hwhole
    have hlinks := hright.links_eq
    refine ⟨hwhole.grouped, hwhole.tight, hwhole.looser, hwhole.links_eq.trans ?_⟩
    rw [links, List.append_assoc, List.cons_append, hlinks]
    rfl
  | case3 bound left symbol a steps hlt =>
    refine ⟨hgrouped, hbound, ?_, rfl⟩
    rintro s ⟨⟩
    exact Nat.lt_of_not_le hlt

/-- What climbing reads from a chain is grouped and has the links of the chain. -/
lemma ofChain_spec (first : α) (steps : List (Step α)) : (ofChain first steps).Grouped ∧
    (ofChain first steps).links = .operand first :: steps.flatMap Step.links := by
  have h : Climbed 0 ((operand first).links ++ steps.flatMap Step.links)
      (climb 0 (operand first) steps).1 (climb 0 (operand first) steps).2.1 :=
    climbed_climb trivial (Nat.zero_le _) (looser_operand first steps)
  -- no operator is looser than all, so no step is left
  have hrest : (climb 0 (operand first) steps).2.1 = [] := by
    cases hsteps : (climb 0 (operand first) steps).2.1 with
    | nil => rfl
    | cons s rest =>
      have hlooser := h.looser
      rw [hsteps] at hlooser
      exact absurd (hlooser s rfl) (Nat.not_lt_zero _)
  have hlinks := h.links_eq
  rw [hrest, List.flatMap_nil, List.append_nil] at hlinks
  exact ⟨h.grouped, hlinks⟩

/-! ## There is one grouped operation -/

/-- The operation with every operand changed. -/
def map (f : α → β) : Operation α → Operation β
  | operand a => operand (f a)
  | apply symbol left right => apply symbol (left.map f) (right.map f)

/-- The link with its operand changed. -/
def mapLink (f : α → β) : Link α → Link β
  | .operand a => .operand (f a)
  | .operator symbol => .operator symbol

lemma links_map (f : α → β) (x : Operation α) : (x.map f).links = x.links.map (mapLink f) := by
  induction x with
  | operand a => rfl
  | apply symbol left right ihl ihr =>
    rw [map, links, links, ihl, ihr, List.map_append, List.map_cons]
    rfl

lemma tightness_map (f : α → β) (x : Operation α) : (x.map f).tightness = x.tightness := by
  cases x <;> rfl

lemma Grouped.map {x : Operation α} (h : x.Grouped) (f : α → β) : (x.map f).Grouped := by
  induction x with
  | operand a => trivial
  | apply symbol left right ihl ihr =>
    obtain ⟨hleft, hright, hl, hr⟩ := h
    exact ⟨by rwa [tightness_map], by rwa [tightness_map], ihl hl, ihr hr⟩

/-- Operations joined to themselves. -/
def free : Joining (Operation α) := ⟨apply, fun _ => {}⟩

lemma value_free (x : Operation α) : (x.map operand).value free = x := by
  induction x with
  | operand a => rfl
  | apply symbol left right ihl ihr => rw [map, value, ihl, ihr]; rfl

/-- Two grouped operations with the same links are the same: both are what the links fold to. -/
lemma eq_of_links_eq {x y : Operation α} (hx : x.Grouped) (hy : y.Grouped) (h : x.links = y.links) :
    x = y := by
  have hfold := fold_links (J := free) (hx.map operand)
  rw [links_map, h, ← links_map, fold_links (hy.map operand), value_free, value_free] at hfold
  exact (Except.ok.inj hfold).symm

end Operation

/-! ## What cannot be folded -/

namespace Joining

variable {J : Joining α}

/-- The failure is one that folding gives: it is fatal, and an operator lacks an operand or links
are left over. -/
def Unfoldable (f : Failure) : Prop :=
  f.fatal = true ∧ ((∃ o, f.cause = .lonelyOperator o) ∨ ∃ n, f.cause = .incompleteReduction n)

/-- Folding a tier keeps whether the links alternate, or an operator lacks an operand. -/
lemma foldTier_alternates (tier : Tier) (passed links : List (Link α)) :
    match J.foldTier tier passed links with
    | .ok rest => Alternates rest ↔ Alternates (passed.reverse ++ links)
    | .error f => Unfoldable f := by
  fun_induction foldTier J tier passed links with
  | case1 passed => rw [List.append_nil]
  | case2 passed a links ih => simpa using ih
  | case3 symbol htier a passed b links ih =>
    have hjoin : Alternates (passed.reverse ++ .operand a :: .operator symbol :: .operand b :: links) ↔
        Alternates (passed.reverse ++ .operand (J.join symbol a b) :: links) :=
      alternates_join_iff passed.reverse
    split
    · rename_i rest hrest
      rw [hrest] at ih
      simp only [List.reverse_cons, List.append_assoc, List.cons_append, List.nil_append] at ih ⊢
      exact ih.trans hjoin.symm
    · rename_i f hf
      rw [hf] at ih
      exact ih
  | case4 passed symbol links htier _ => exact ⟨rfl, .inl ⟨_, rfl⟩⟩
  | case5 passed symbol links htier ih => simpa using ih

lemma foldTiers_alternates (tiers : List Tier) (links : List (Link α)) :
    match J.foldTiers tiers links with
    | .ok rest => Alternates rest ↔ Alternates links
    | .error f => Unfoldable f := by
  induction tiers generalizing links with
  | nil => exact Iff.rfl
  | cons tier tiers ih =>
    have hfirst := foldTier_alternates (J := J) tier [] links
    rw [foldTiers]
    cases hrest : J.foldTier tier [] links with
    | error f =>
      rw [hrest] at hfirst
      exact hfirst
    | ok rest =>
      rw [hrest] at hfirst
      have hmore := ih rest
      show match J.foldTiers tiers rest with
        | .ok rest => Alternates rest ↔ Alternates links
        | .error f => Unfoldable f
      split
      · rename_i hok
        rw [hok] at hmore
        exact hmore.trans hfirst
      · rename_i herror
        rw [herror] at hmore
        exact hmore

/-- What does not alternate cannot be folded. -/
lemma fold_of_not_alternates {links : List (Link α)} (h : ¬ Alternates links) :
    ∃ f, J.fold links = .error f ∧ Unfoldable f := by
  have htiers := foldTiers_alternates (J := J) Tier.tightestFirst links
  rw [fold]
  cases hrest : J.foldTiers Tier.tightestFirst links with
  | error f =>
    rw [hrest] at htiers
    exact ⟨f, rfl, htiers⟩
  | ok rest =>
    rw [hrest] at htiers
    have hrest : ¬ Alternates rest := fun hrest => h (htiers.mp hrest)
    rcases rest with _ | ⟨x, _ | ⟨y, links⟩⟩
    · exact ⟨_, rfl, rfl, .inr ⟨0, rfl⟩⟩
    · cases x with
      | operand a => exact absurd trivial hrest
      | operator s => exact ⟨_, rfl, rfl, .inr ⟨1, rfl⟩⟩
    · cases x <;> exact ⟨_, rfl, rfl, .inr ⟨(_ :: y :: links).length, rfl⟩⟩

/-- A chain that alternates is folded to the operation that climbing reads from it. -/
lemma fold_chain (first : α) (steps : List (Step α)) :
    J.fold (.operand first :: steps.flatMap Step.links) =
      .ok ((Operation.ofChain first steps).value J) := by
  obtain ⟨hgrouped, hlinks⟩ := Operation.ofChain_spec first steps
  rw [← hlinks]
  exact Operation.fold_links hgrouped

/-- What is folded is the value of a grouped operation with the links of the chain. -/
lemma exists_of_fold_eq_ok {links : List (Link α)} {a : α} (h : J.fold links = .ok a) :
    ∃ x : Operation α, x.Grouped ∧ x.links = links ∧ a = x.value J := by
  by_cases halternates : Alternates links
  · obtain ⟨first, steps, rfl⟩ := exists_of_alternates halternates
    obtain ⟨hgrouped, hlinks⟩ := Operation.ofChain_spec first steps
    rw [fold_chain] at h
    exact ⟨_, hgrouped, hlinks, (Except.ok.inj h).symm⟩
  · obtain ⟨f, hf, -⟩ := fold_of_not_alternates (J := J) halternates
    rw [hf] at h
    cases h

/-- Where folding fails, it fails fatally. -/
lemma fatal_of_fold_eq_error {links : List (Link α)} {f : Failure} (h : J.fold links = .error f) :
    f.fatal = true := by
  by_cases halternates : Alternates links
  · obtain ⟨first, steps, rfl⟩ := exists_of_alternates halternates
    rw [fold_chain] at h
    cases h
  · obtain ⟨g, hg, hfatal, -⟩ := fold_of_not_alternates (J := J) halternates
    rw [hg] at h
    cases h
    exact hfatal

/-- The operand of a link, if it is one, has the property. -/
def HoldsOf (P : α → Prop) (l : Link α) : Prop := ∀ a, l = .operand a → P a

/-- What is folded of operands that have a property has it, if joining keeps it. -/
lemma fold_holds {P : α → Prop} (hjoin : ∀ symbol a b, P a → P b → P (J.join symbol a b))
    {links : List (Link α)} {a : α} (hlinks : ∀ l ∈ links, HoldsOf P l)
    (h : J.fold links = .ok a) : P a := by
  obtain ⟨x, -, rfl, rfl⟩ := exists_of_fold_eq_ok h
  clear h
  induction x with
  | operand b => exact hlinks _ (List.mem_singleton.mpr rfl) b rfl
  | apply symbol left right ihl ihr =>
    rw [Operation.links, List.forall_mem_append, List.forall_mem_cons] at hlinks
    exact hjoin _ _ _ (ihl hlinks.1) (ihr hlinks.2.2)

end Joining

end Formulary
