/-
# Snapshots of stored programs

Every program that is reached has a snapshot, and two snapshots are alike exactly if the programs
have one structure.  The relation is between the trees below the two roots and does not look at
the keys in them, so the history of a store does not matter, nor do the nodes that the root does
not reach.
-/
import Mathlib.Logic.Equiv.Fin.Rotate
import Formulary.Proofs.Formula.Structure
import Formulary.Proofs.Store.RoundTrip

namespace Formulary.Store

variable {s t : Store}

/-- A program that is reached has a snapshot, that of the tree below its root. -/
lemma Reachable.exists_snapshot (h : s.Reachable) :
    ∃ v, s.view .whole = .ok v ∧ s.snapshot = .ok v.snapshot := by
  obtain ⟨v, hview⟩ := exists_view h.sound.consistent .whole
  refine ⟨v, hview, ?_⟩
  rw [snapshot, hview]
  rfl

/-- The snapshots of two programs, in which all numbers have a value, are alike exactly if the
programs have one structure. -/
theorem Reachable.snapshot_alike_iff (hs : s.Reachable) (ht : t.Reachable) :
    ∃ v w d e, s.view .whole = .ok v ∧ t.view .whole = .ok w ∧ s.snapshot = .ok d ∧
      t.snapshot = .ok e ∧
      (v.Throughout Formula.Numeric → (d.alike e = true ↔ DefinitionSet.Same v w)) := by
  obtain ⟨v, hv, hd⟩ := hs.exists_snapshot
  obtain ⟨w, hw, he⟩ := ht.exists_snapshot
  exact ⟨v, w, v.snapshot, w.snapshot, hv, hw, hd, he,
    fun h => DefinitionSet.alike_snapshot_iff h w⟩

/-- Two programs made in different orders, the second with a formula that belongs to nothing and
with the other zero. -/
theorem snapshot_alike_of_orders :
    let s := afterAll [.addFormula (.number Binary64.zero),
      .addDefinition empty.root "a" (some ⟨1, 1⟩), .addDefinition empty.root "a" none,
      .addDefinition empty.root "b" none]
    let t := afterAll [.addFormula .null, .addFormula (.number (.ofRank true 0 (by decide))),
      .addDefinition empty.root "b" none, .addDefinition empty.root "a" (some ⟨2, 1⟩),
      .addDefinition empty.root "a" none]
    s.Reachable ∧ t.Reachable ∧ ∃ d e, s.snapshot = .ok d ∧ t.snapshot = .ok e ∧
      d.alike e = true := by
  intro s t
  have hs : s.Reachable := reachable_afterAll _
  have ht : t.Reachable := reachable_afterAll _
  let v : SetView := .node s.root [.node ⟨1, 1⟩ "a" (some (.node ⟨1, 1⟩ (.number Binary64.zero))),
    .node ⟨2, 1⟩ "a" none, .node ⟨3, 1⟩ "b" none] []
  let w : SetView := .node t.root [.node ⟨1, 1⟩ "b" none,
    .node ⟨2, 1⟩ "a" (some (.node ⟨2, 1⟩ (.number (.ofRank true 0 (by decide))))),
    .node ⟨3, 1⟩ "a" none] []
  have hv : s.view .whole = .ok v := rfl
  have hw : t.view .whole = .ok w := rfl
  have hzero : Formula.Same (.node ⟨1, 1⟩ (.number Binary64.zero) : FormulaView)
      (.node ⟨2, 1⟩ (.number (.ofRank true 0 (by decide))) : FormulaView) :=
    .node (.number (.inr (by decide)))
  have hsame : DefinitionSet.Same v w := by
    refine .node (finRotate 3) (by decide) (fun i => ?_) (by decide) .nil
    match i with
    | ⟨0, _⟩ => exact .some hzero
    | ⟨1, _⟩ => exact .none
    | ⟨2, _⟩ => exact .none
  obtain ⟨v', w', d, e, hv', hw', hd, he, halike⟩ := Reachable.snapshot_alike_iff hs ht
  obtain rfl := Except.ok.inj (hv.symm.trans hv')
  obtain rfl := Except.ok.inj (hw.symm.trans hw')
  have hnumeric : v.Throughout Formula.Numeric := by decide +kernel
  exact ⟨hs, ht, d, e, hd, he, (halike hnumeric).mpr hsame⟩

end Formulary.Store
