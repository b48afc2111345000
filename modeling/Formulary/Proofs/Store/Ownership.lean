/-
# Ownership in edited programs

A program is reached by reading a text, or from the program without definitions, and by any
requests after that, with whatever keys they name and whether they go through or not.  Every
program that is reached is in order: the nodes that a node lists exist and refer back to it, a
node that refers to an owner is listed by it exactly once, and the root has no owner.  The check
of owners only looks at one of these directions; it never finds a fault.
-/
import Formulary.Proofs.Data.Results
import Formulary.Proofs.Store.Loading
import Formulary.Proofs.Store.Request
import Formulary.Store.Text

namespace Formulary.Store

variable {s : Store}

/-- The store was read from a text or is the empty one, or comes from such a store by
requests. -/
inductive Reachable : Store → Prop
  | empty : Reachable empty
  | read {text : List Char} {s : Store} (h : ofText text = .ok s) : Reachable s
  | after {s : Store} (h : Reachable s) (r : Request) : Reachable (r.after s)

/-- What is read into a store is a stored program. -/
lemma exists_of_ofText {text : List Char} (h : ofText text = .ok s) :
    ∃ program, DefinitionSet.ofText text = .ok program ∧ s = ofProgram program := by
  unfold ofText at h
  cases hp : DefinitionSet.ofText text with
  | error e =>
    rw [hp] at h
    cases h
  | ok program =>
    rw [hp] at h
    cases h
    exact ⟨program, rfl, rfl⟩

/-- Every store that is reached is in order. -/
lemma Reachable.sound (h : s.Reachable) : s.Sound := by
  induction h with
  | empty => exact sound_empty
  | read h =>
    obtain ⟨program, -, rfl⟩ := exists_of_ofText h
    exact sound_ofProgram program
  | after _ r ih => exact ih.after r

/-! ## The check of owners -/

lemma checkOwner_eq_ok {owner : Option NodeKey} {n : NodeKey} :
    s.checkOwner owner n = .ok () ↔ ∃ tie, s.ties n = some tie ∧ tie.owner = owner := by
  unfold checkOwner
  rw [owner?_eq]
  cases s.ties n with
  | none => simp
  | some tie =>
    by_cases h : tie.owner = owner
    · simp [h]
    · simp [h]

lemma mem_links_iff {o n : NodeKey} : (o, n) ∈ s.links ↔ n ∈ s.ties.owned o := by
  unfold links Ties.owned
  cases o with
  | formula key =>
    cases h : s.formulas.get? key <;>
      simp [List.mem_append, List.mem_flatMap, Slots.mem_entries_iff, ties, h, FormulaNode.tie]
  | definition key =>
    cases h : s.definitions.get? key <;>
      simp [List.mem_append, List.mem_flatMap, Slots.mem_entries_iff, ties, h, DefinitionNode.tie]
  | set key =>
    cases h : s.sets.get? key <;>
      simp [List.mem_append, List.mem_flatMap, Slots.mem_entries_iff, ties, h, SetNode.tie]

/-! ## The invariant -/

lemma Sound.owner_of_mem (hs : s.Sound) {o n : NodeKey} (h : n ∈ s.ties.owned o) :
    ∃ tie, s.ties n = some tie ∧ tie.owner = some o :=
  Option.bind_eq_some_iff.mp ((hs.consistent.mem_owned_iff o n).mp h)

lemma Sound.count_of_owner (hs : s.Sound) {o n : NodeKey} (h : s.ties.owner n = some o) :
    ∃ tie, s.ties o = some tie ∧ tie.owned.count n = 1 := by
  have hmem := (hs.consistent.mem_owned_iff o n).mpr h
  obtain ⟨tie, htie⟩ := Option.isSome_iff_exists.mp (Ties.isSome_of_mem_owned hmem)
  refine ⟨tie, htie, ?_⟩
  have howned : s.ties.owned o = tie.owned := by simp [Ties.owned, htie]
  have hnodup := hs.consistent.nodup o
  rw [howned] at hmem hnodup
  exact List.count_eq_one_of_mem hnodup hmem

lemma Sound.owner_root (hs : s.Sound) : ∃ tie, s.ties (.set s.root) = some tie ∧ tie.owner = none := by
  obtain ⟨tie, htie⟩ := Option.isSome_iff_exists.mp hs.consistent.root_isSome
  refine ⟨tie, htie, ?_⟩
  have := hs.consistent.owner_root
  rwa [Ties.owner, htie] at this

lemma Sound.checkOwners (hs : s.Sound) : s.checkOwners = .ok () := by
  unfold Store.checkOwners
  rw [checkOwner_eq_ok.mpr hs.owner_root]
  refine forM_eq_ok ?_
  rintro ⟨o, n⟩ hlink
  exact checkOwner_eq_ok.mpr (hs.owner_of_mem (mem_links_iff.mp hlink))

/-- In every store that is reached, both directions of ownership agree: a listed node exists and
refers back, a node with an owner is listed by it exactly once, and the root is a node without
an owner.  So the check of owners goes through. -/
theorem Reachable.ownership (h : s.Reachable) :
    (∀ o tie, s.ties o = some tie → ∀ n ∈ tie.owned,
      ∃ tie', s.ties n = some tie' ∧ tie'.owner = some o) ∧
    (∀ n tie o, s.ties n = some tie → tie.owner = some o →
      ∃ tie', s.ties o = some tie' ∧ tie'.owned.count n = 1) ∧
    (∃ tie, s.ties (.set s.root) = some tie ∧ tie.owner = none) ∧
    s.checkOwners = .ok () := by
  have hs := h.sound
  refine ⟨?_, ?_, hs.owner_root, hs.checkOwners⟩
  · intro o tie htie n hn
    have hmem : n ∈ s.ties.owned o := by simpa [Ties.owned, htie] using hn
    exact hs.owner_of_mem hmem
  · intro n tie o htie howner
    have howner' : s.ties.owner n = some o := by simp [Ties.owner, htie, howner]
    exact hs.count_of_owner howner'

/-- A formula that was added and then bound to a name refers back to the definition. -/
theorem owner_of_bound_formula :
    let s := (Request.addDefinition empty.root "x" (some ⟨1, 1⟩)).after
      ((Request.addFormula .null).after empty)
    s.Reachable ∧ (s.ties (.definition ⟨1, 1⟩)).map Tie.owned = some [.formula ⟨1, 1⟩] ∧
      ∃ tie, s.ties (.formula ⟨1, 1⟩) = some tie ∧ tie.owner = some (.definition ⟨1, 1⟩) := by
  intro s
  have hs : s.Reachable := .after (.after .empty _) _
  refine ⟨hs, rfl, ?_⟩
  exact (Reachable.ownership hs).1 _ ⟨some (.set empty.root), [.formula ⟨1, 1⟩]⟩ rfl _ (by simp)

end Formulary.Store
