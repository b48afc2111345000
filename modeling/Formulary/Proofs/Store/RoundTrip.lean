/-
# Programs that are written and read again

A program that was read into a store is there as it was read, so its snapshot and its text are
those of the program itself.  It is in normal form, so its text is read as a program with the same
snapshot, but for the cases that are not written, and that program has the same text again.

A program that was edited need not be in normal form.  Its text can be read all the same, as long
as no minus is written right in front of a number among the matrices that has a minus of its own:
two minus signs in a row are one operator, and no operand begins with it.
-/
import Formulary.Proofs.Grammar.Normal
import Formulary.Proofs.Layout.Fixed
import Formulary.Proofs.Layout.Program
import Formulary.Proofs.Store.Contents
import Formulary.Proofs.Store.Ownership
import Formulary.Proofs.Token.Lossless

namespace Formulary

variable {ε δ σ : Type}

/-- What holds throughout the snapshot of a set holds throughout the set. -/
lemma DefinitionSet.throughout_of_snapshot {P : Formula ε δ σ → Prop} {Q : Formula.Bare → Prop}
    (hPQ : ∀ g : Formula ε δ σ, Q g.snapshot → P g) {set : DefinitionSet ε δ σ}
    (h : set.snapshot.Throughout Q) : set.Throughout P := fun f hf =>
  Formula.throughout_of_snapshot hPQ (h f.snapshot (DefinitionSet.mem_formulas_snapshot hf))

/-- A formula holds the texts that its snapshot holds. -/
lemma Formula.texts_snapshot (f : Formula ε δ σ) : f.snapshot.texts = f.texts := by
  obtain ⟨note, shape⟩ := f
  cases shape <;> simp only [Formula.snapshot, Shape.snapshot, Formula.texts]

/-- The snapshot of a set does not depend on notes. -/
lemma DefinitionSet.snapshot_of_bare (set : DefinitionSet ε δ σ) :
    set.bare.snapshot = set.snapshot := DefinitionSet.snapshot_bare fun f _ => Formula.snapshot_bare f

namespace Layout

/-- The text of a program does not depend on notes. -/
lemma program_bare (set : DefinitionSet ε δ σ) : program set.bare = program set :=
  (program_congr (sameSet_bare fun f _ => same_bare f)).symm

/-- Formulas in normal form without quotes in their texts are written so that they can be read
back. -/
lemma safe_of_normal {f : Formula ε δ σ} (h : f.Throughout Formula.Normal)
    (hunquoted : f.Throughout Formula.Unquoted) : f.Throughout Safe :=
  h.self.and hunquoted fun _ hnormal hg => ⟨hg, apart_of_normal hnormal⟩

end Layout

namespace Store

open Layout

/-- A program that was stored has the snapshot that it had before. -/
lemma snapshot_ofProgram (program : DefinitionSet.Placed) :
    (ofProgram program).snapshot = .ok program.snapshot := by
  obtain ⟨v, hview, hbare⟩ := exists_view_ofProgram program
  rw [Store.snapshot, hview, ← program.snapshot_of_bare, ← hbare, v.snapshot_of_bare]
  rfl

/-- A program that was stored has the text that it had before. -/
lemma write_ofProgram (program : DefinitionSet.Placed) :
    (ofProgram program).write = .ok (Layout.program program) := by
  obtain ⟨v, hview, hbare⟩ := exists_view_ofProgram program
  rw [write_eq hview, ← program_bare v, hbare, program_bare]

/-- A program that was read and holds no quotes is written as a text that can be read.  What is
read from it has the snapshot of the program, in which every switch ends with its first case
without a condition, and is written as the same text again. -/
theorem round_trip {text : List Char} {s : Store} (h : ofText text = .ok s) :
    ∃ d, s.snapshot = .ok d ∧ (d.Throughout Formula.Unquoted → ∃ w s' d',
      s.write = .ok w ∧ ofText w.toList = .ok s' ∧ s'.snapshot = .ok d' ∧
      d'.alike d.cut = true ∧ (d.Throughout Formula.Whole → d'.alike d = true) ∧
      s'.write = .ok w) := by
  obtain ⟨p, hp, rfl⟩ := exists_of_ofText h
  refine ⟨p.snapshot, snapshot_ofProgram p, fun hunquoted => ?_⟩
  obtain ⟨tokens, -, htokens⟩ := bind_eq_ok_iff.mp hp
  obtain ⟨hbound, hnormal⟩ := DefinitionSet.normal_of_ofTokens htokens
  have hquotes : p.Throughout Formula.Unquoted :=
    DefinitionSet.throughout_of_snapshot (fun g hg => by rwa [Formula.Unquoted, ← g.texts_snapshot])
      hunquoted
  obtain ⟨p', hp', hreread⟩ := exists_ofText_program fun f hf =>
    safe_of_normal (hnormal f hf) (hquotes f hf)
  have hcut : p'.snapshot.alike p.snapshot.cut = true := by
    rw [← p'.snapshot_of_bare, hreread]
    exact DefinitionSet.alike_reread hbound hnormal
  refine ⟨Layout.program p, ofProgram p', p'.snapshot, write_ofProgram p, ?_,
    snapshot_ofProgram p', hcut, fun hwhole => ?_, ?_⟩
  · rw [ofText, hp']
    rfl
  · rwa [DefinitionSet.cut_eq_self fun f hf => Formula.cut_eq_self (hwhole f hf)] at hcut
  · rw [write_ofProgram, ← program_bare, hreread, program_reread hbound hnormal]

/-- A switch with a case after `otherwise` is written without that case, and as it is written
it stays. -/
theorem round_trip_of_switch :
    ∃ s d s' d', ofText "x = switch\n  otherwise \"a\"\n  otherwise 2".toList = .ok s ∧
      s.snapshot = .ok d ∧ s.write = .ok "x = switch\n  otherwise \"a\"\n" ∧
      ofText "x = switch\n  otherwise \"a\"\n".toList = .ok s' ∧ s'.snapshot = .ok d' ∧
      d'.alike d.cut = true ∧ s'.write = .ok "x = switch\n  otherwise \"a\"\n" := by
  have hrun : (ofText "x = switch\n  otherwise \"a\"\n  otherwise 2".toList).toOption.map
      (fun s => (s.snapshot.toOption.map fun d => decide (d.Throughout Formula.Unquoted),
        s.write.toOption)) =
      some (some true, some "x = switch\n  otherwise \"a\"\n") := by
    decide +kernel
  obtain ⟨s, hs, hrun⟩ := Option.map_eq_some_iff.mp hrun
  obtain ⟨hunquoted, hwritten⟩ := Prod.mk.inj hrun
  have hread := eq_ok_of_toOption hs
  obtain ⟨d, hd, htrip⟩ := round_trip hread
  rw [hd, Except.toOption, Option.map_some, Option.some.injEq, decide_eq_true_iff] at hunquoted
  obtain ⟨w, s', d', hw, hs', hd', hcut, -, hfixed⟩ := htrip hunquoted
  obtain rfl := Except.ok.inj (hw.symm.trans (eq_ok_of_toOption hwritten))
  exact ⟨s, d, s', d', hread, hd, hw, hs', hd', hcut, hfixed⟩

/-! ## Edited programs -/

/-- Every program that is reached is written as a text that can be read, if none of its texts
contains a quote and no two minus signs meet. -/
theorem Reachable.exists_ofText_write {s : Store} (h : s.Reachable) :
    ∃ v w, s.view .whole = .ok v ∧ s.write = .ok w ∧
      (v.Throughout Formula.Unquoted → v.Throughout Apart → ∃ s', ofText w.toList = .ok s') := by
  obtain ⟨v, hview⟩ := exists_view h.sound.consistent .whole
  refine ⟨v, Layout.program v, hview, write_eq hview, fun hunquoted hapart => ?_⟩
  have hsafe : v.Throughout Safe := fun f hf =>
    (hunquoted f hf).and (hapart f hf) fun _ hg hg' => ⟨hg, hg'⟩
  obtain ⟨p, hp, -⟩ := exists_ofText_program hsafe
  refine ⟨ofProgram p, ?_⟩
  rw [ofText, hp]
  rfl

/-- A definition of `x` by a minus in front of the given formula, made step by step. -/
def negated (shape : StoredShape) : List Request :=
  [.addFormula (.name "-"), .addFormula (.number Binary64.zero), .addFormula shape,
    .addFormula (.call ⟨1, 1⟩ [⟨2, 1⟩, ⟨3, 1⟩]), .addDefinition empty.root "x" (some ⟨4, 1⟩)]

/-- The store after requests that start from the empty one. -/
def afterAll (rs : List Request) : Store := rs.foldl (fun s r => r.after s) empty

lemma reachable_afterAll (rs : List Request) : (afterAll rs).Reachable := by
  have hfold (s : Store) (h : s.Reachable) : (rs.foldl (fun s r => r.after s) s).Reachable := by
    induction rs generalizing s with
    | nil => exact h
    | cons r rs ih => exact ih _ (h.after r)
  exact hfold empty .empty

/-- A minus in front of a negative number, which stands in parentheses. -/
theorem exists_ofText_write_negated :
    let s := afterAll (negated (.number (.ofRank true 0x4014000000000000 (by decide))))
    s.Reachable ∧ s.write = .ok "x = -(-5)\n" ∧
      ∃ s', ofText "x = -(-5)\n".toList = .ok s' := by
  intro s
  have hs : s.Reachable := reachable_afterAll _
  have hrun : (s.view .whole).toOption.map (fun v => decide (v.Throughout Formula.Unquoted ∧
      v.Throughout Apart)) = some true ∧ s.write.toOption = some "x = -(-5)\n" := by
    decide +kernel
  obtain ⟨v, w, hview, hwrite, hread⟩ := hs.exists_ofText_write
  rw [hview, hwrite, Except.toOption, Except.toOption, Option.map_some, Option.some.injEq,
    Option.some.injEq, decide_eq_true_iff] at hrun
  obtain ⟨⟨hunquoted, hapart⟩, rfl⟩ := hrun
  exact ⟨hs, hwrite, hread hunquoted hapart⟩

/-- A minus in front of a negative number among the matrices, which cannot be read. -/
theorem write_glued_minus :
    let s := afterAll (negated (.matrix (.number (.ofRank true 0x4014000000000000 (by decide)))))
    s.Reachable ∧ (∃ v, s.view .whole = .ok v ∧ v.Throughout Formula.Unquoted) ∧
      s.write = .ok "x = --5\n" ∧ ∀ s', ofText "x = --5\n".toList ≠ .ok s' := by
  intro s
  have hrun : (s.view .whole).toOption.map (fun v => decide (v.Throughout Formula.Unquoted)) =
      some true ∧ s.write.toOption = some "x = --5\n" ∧
      (ofText "x = --5\n".toList).toOption.isNone = true := by
    decide +kernel
  obtain ⟨hview, hwrite, hread⟩ := hrun
  obtain ⟨v, hv, hunquoted⟩ := Option.map_eq_some_iff.mp hview
  refine ⟨reachable_afterAll _, ⟨v, eq_ok_of_toOption hv, of_decide_eq_true hunquoted⟩,
    eq_ok_of_toOption hwrite, fun s' hs' => ?_⟩
  rw [hs'] at hread
  cases hread

end Store

end Formulary
