/-
# What is written of a store

The view of what is written leaves out formulas without a name and cases that are never written.
The text is the one of the whole program all the same, and it does not depend on the depth to
which the view was read.
-/
import Formulary.Proofs.Formula.Related
import Formulary.Proofs.Layout.Same
import Formulary.Proofs.Store.Viewing
import Formulary.Store.Text

namespace Formulary.Store

open Layout

variable {s : Store} {extent : Extent} {n m : Nat}

/-! ## One node -/

/-- What is read of the first layer of a formula. -/
def Extent.shape (extent : Extent) (shape : StoredShape) : StoredShape :=
  if extent = .whole then shape else shape.written

lemma node?_eq_ok_iff {kind : NodeKind} {α : Type} {slots : Slots kind α} {key : Key kind}
    {node : α} : node? slots key = .ok node ↔ slots.get? key = some node := by
  unfold node?
  cases slots.get? key with
  | none => simp
  | some node' => simp

/-- The view of a formula has the views of all that the node refers to below it. -/
lemma readFormula_eq_ok_iff {key : FormulaKey} {v : FormulaView} :
    s.readFormula extent (n + 1) key = .ok v ↔
      ∃ node shape, s.formulas.get? key = some node ∧ v = .node key shape ∧
        Shape.Related (fun k f => s.readFormula extent n k = .ok f)
          (fun k set => s.readSet extent n k = .ok set) (extent.shape node.shape) shape := by
  rw [readFormula]
  constructor
  · intro h
    obtain ⟨node, hnode, h⟩ := bind_eq_ok_iff.mp h
    obtain ⟨shape, hshape, h⟩ := bind_eq_ok_iff.mp h
    cases h
    exact ⟨node, shape, node?_eq_ok_iff.mp hnode, rfl, Shape.mapM_eq_ok_iff.mp hshape⟩
  · rintro ⟨node, shape, hnode, rfl, hrelated⟩
    have hshape := Shape.mapM_eq_ok_iff.mpr hrelated
    rw [Extent.shape] at hshape
    rw [node?_eq_ok hnode]
    simp only [ok_bind, hshape]
    rfl

/-- The view of a definition has the view of its formula. -/
inductive Defines (s : Store) (extent : Extent) (n : Nat) : DefinitionKey → DefinitionView → Prop
  | unbound {key : DefinitionKey} {node : DefinitionNode} (h : s.definitions.get? key = some node)
      (hvalue : node.value = none) : Defines s extent n key (.node key node.name none)
  | bound {key : DefinitionKey} {node : DefinitionNode} {k : FormulaKey} {f : FormulaView}
      (h : s.definitions.get? key = some node) (hvalue : node.value = some k)
      (hf : s.readFormula extent n k = .ok f) : Defines s extent n key (.node key node.name (some f))

lemma readDefinition_eq_ok_iff {key : DefinitionKey} {d : DefinitionView} :
    (do
      let definition ← node? s.definitions key
      let value ← definition.value.mapM (s.readFormula extent n)
      return .node key definition.name value : Except NoView DefinitionView) = .ok d ↔
      Defines s extent n key d := by
  constructor
  · intro h
    obtain ⟨node, hnode, h⟩ := bind_eq_ok_iff.mp h
    obtain ⟨value, hmap, h⟩ := bind_eq_ok_iff.mp h
    cases h
    cases hvalue : node.value with
    | none =>
      rw [hvalue] at hmap
      cases hmap
      exact .unbound (node?_eq_ok_iff.mp hnode) hvalue
    | some k =>
      rw [hvalue] at hmap
      obtain ⟨f, hf, hmap⟩ := bind_eq_ok_iff.mp (show (s.readFormula extent n k >>= fun f =>
        pure (some f)) = .ok value from hmap)
      cases hmap
      exact .bound (node?_eq_ok_iff.mp hnode) hvalue hf
  · intro h
    cases h with
    | unbound h hvalue =>
      rw [node?_eq_ok h]
      simp only [ok_bind, hvalue]
      rfl
    | bound h hvalue hf =>
      rw [node?_eq_ok h]
      simp only [ok_bind, hvalue, Option.mapM_some, hf]
      rfl

/-- The view of a set has the views of its definitions and of its formulas without a name. -/
lemma readSet_eq_ok_iff {key : SetKey} {v : SetView} :
    s.readSet extent (n + 1) key = .ok v ↔
      ∃ node ds floating, s.sets.get? key = some node ∧ v = .node key ds floating ∧
        List.Forall₂ (Defines s extent n) node.definitions ds ∧
        List.Forall₂ (fun k f => s.readFormula extent n k = .ok f)
          (if extent = .whole then node.floating else []) floating := by
  rw [readSet]
  constructor
  · intro h
    obtain ⟨node, hnode, h⟩ := bind_eq_ok_iff.mp h
    obtain ⟨ds, hds, h⟩ := bind_eq_ok_iff.mp h
    obtain ⟨floating, hfloating, h⟩ := bind_eq_ok_iff.mp h
    cases h
    exact ⟨node, ds, floating, node?_eq_ok_iff.mp hnode, rfl,
      (mapM_eq_ok_iff.mp hds).imp fun _ _ => readDefinition_eq_ok_iff.mp,
      mapM_eq_ok_iff.mp hfloating⟩
  · rintro ⟨node, ds, floating, hnode, rfl, hds, hfloating⟩
    have hds' := mapM_eq_ok_iff.mpr (hds.imp fun _ _ => readDefinition_eq_ok_iff.mpr)
    rw [node?_eq_ok hnode]
    simp only [ok_bind, hds', mapM_eq_ok_iff.mpr hfloating]
    rfl

/-! ## Depth -/

lemma Defines.mono {n' : Nat} {key : DefinitionKey} {d : DefinitionView}
    (h : Defines s extent n key d)
    (hread : ∀ k f, s.readFormula extent n k = .ok f → s.readFormula extent n' k = .ok f) :
    Defines s extent n' key d := by
  cases h with
  | unbound h hvalue => exact .unbound h hvalue
  | bound h hvalue hf => exact .bound h hvalue (hread _ _ hf)

/-- A view does not change with the depth that is allowed. -/
lemma read_mono (hle : n ≤ m) :
    (∀ key v, s.readFormula extent n key = .ok v → s.readFormula extent m key = .ok v) ∧
      ∀ key v, s.readSet extent n key = .ok v → s.readSet extent m key = .ok v := by
  induction n generalizing m with
  | zero =>
    constructor
    · intro key v h
      rw [readFormula] at h
      cases h
    · intro key v h
      rw [readSet] at h
      cases h
  | succ n ih =>
    obtain ⟨m, rfl⟩ : ∃ m', m = m' + 1 := ⟨m - 1, by omega⟩
    obtain ⟨hformula, hset⟩ := ih (Nat.le_of_succ_le_succ hle)
    constructor
    · intro key v h
      obtain ⟨node, shape, hnode, rfl, hrelated⟩ := readFormula_eq_ok_iff.mp h
      exact readFormula_eq_ok_iff.mpr ⟨node, shape, hnode, rfl, hrelated.mono hformula hset⟩
    · intro key v h
      obtain ⟨node, ds, floating, hnode, rfl, hds, hfloating⟩ := readSet_eq_ok_iff.mp h
      exact readSet_eq_ok_iff.mpr ⟨node, ds, floating, hnode, rfl,
        hds.imp fun _ _ hd => hd.mono hformula, hfloating.imp hformula⟩

/-- Views of one set that were read to different depths are the same. -/
lemma readSet_unique {key : SetKey} {v w : SetView} (hv : s.readSet extent n key = .ok v)
    (hw : s.readSet extent m key = .ok w) : v = w := by
  have hv' := (read_mono (Nat.le_max_left n m)).2 key v hv
  have hw' := (read_mono (Nat.le_max_right n m)).2 key w hw
  rw [hv'] at hw'
  cases hw'
  rfl

/-! ## What is written -/

lemma exists_definitions {keys : List DefinitionKey} {ds : List DefinitionView}
    (h : List.Forall₂ (Defines s .whole n) keys ds)
    (hread : ∀ k v, s.readFormula .whole n k = .ok v →
      ∃ w, s.readFormula .written n k = .ok w ∧ Same v w) :
    ∃ es, List.Forall₂ (Defines s .written n) keys es ∧ List.Forall₂
      (fun d e => d.name = e.name ∧ d.value.map formula = e.value.map formula) ds es := by
  refine exists_forall₂ h fun key d hd => ?_
  cases hd with
  | unbound h hvalue => exact ⟨_, .unbound h hvalue, rfl, rfl⟩
  | bound h hvalue hf =>
    obtain ⟨w, hw, hsame⟩ := hread _ _ hf
    exact ⟨_, .bound h hvalue hw, rfl, congrArg some hsame.formula_eq⟩

/-- What is written of a node is written as the whole node would be. -/
lemma exists_written (s : Store) (n : Nat) :
    (∀ key v, s.readFormula .whole n key = .ok v →
      ∃ w, s.readFormula .written n key = .ok w ∧ Same v w) ∧
      ∀ key v, s.readSet .whole n key = .ok v →
        ∃ w, s.readSet .written n key = .ok w ∧ SameSet v w := by
  induction n with
  | zero =>
    constructor
    · intro key v h
      rw [readFormula] at h
      cases h
    · intro key v h
      rw [readSet] at h
      cases h
  | succ n ih =>
    obtain ⟨hformula, hset⟩ := ih
    constructor
    · intro key v h
      obtain ⟨node, shape, hnode, rfl, hrelated⟩ := readFormula_eq_ok_iff.mp h
      obtain ⟨shape', hread, hsame⟩ := hrelated.written.exists hformula hset
      exact ⟨_, readFormula_eq_ok_iff.mpr ⟨node, shape', hnode, rfl, hread⟩,
        (same_written key shape).trans (Same.node hsame key key)⟩
    · intro key v h
      obtain ⟨node, ds, floating, hnode, rfl, hds, -⟩ := readSet_eq_ok_iff.mp h
      obtain ⟨es, hes, hsame⟩ := exists_definitions hds hformula
      exact ⟨_, readSet_eq_ok_iff.mpr ⟨node, es, [], hnode, rfl, hes, .nil⟩,
        sameSet_node hsame floating []⟩

/-- A program is written as the whole of it says. -/
theorem write_eq {v : SetView} (h : s.view .whole = .ok v) : s.write = .ok (program v) := by
  obtain ⟨w, hw, hsame⟩ := (exists_written s _).2 s.root v h
  have hview : s.view .written = .ok w := hw
  rw [write, hview, program_congr hsame]
  rfl

/-- A formula is written as the whole of it says. -/
lemma writeFormula_eq {key : FormulaKey} {v : FormulaView}
    (h : s.viewFormula .whole key = .ok v) : s.writeFormula key = .ok (standalone v) := by
  obtain ⟨w, hw, hsame⟩ := (exists_written s _).1 key v h
  have hview : s.viewFormula .written key = .ok w := hw
  rw [writeFormula, hview, standalone, hsame.formula_eq]
  rfl

end Formulary.Store
