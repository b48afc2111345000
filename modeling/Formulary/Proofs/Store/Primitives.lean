/-
# The small steps of edits

Every edit is made of small steps: a node is looked up, checked, changed, stored or removed.
This file says what each of them does to the content of a store, from that what it does to the
ties, and that the lists of free slots stay in order.
-/
import Mathlib.Logic.Function.Basic
import Formulary.Proofs.Store.Slots
import Formulary.Proofs.Store.Ties
import Formulary.Store.Edit

namespace Formulary.Store

/-- What a formula shows of ownership. -/
def FormulaNode.tie (node : FormulaNode) : Tie := ⟨node.owner, Store.owned node.shape⟩

/-- What a definition shows of ownership. -/
def DefinitionNode.tie (node : DefinitionNode) : Tie := ⟨node.owner.map .set, node.owned⟩

/-- What a set shows of ownership. -/
def SetNode.tie (node : SetNode) : Tie := ⟨node.owner.map .formula, node.owned⟩

/-- The ties of the nodes of a store. -/
def ties (s : Store) : Ties
  | .formula key => (s.formulas.get? key).map FormulaNode.tie
  | .definition key => (s.definitions.get? key).map DefinitionNode.tie
  | .set key => (s.sets.get? key).map SetNode.tie

/-- The lists of free slots are in order. -/
structure Valid (s : Store) : Prop where
  formulas : s.formulas.Valid
  definitions : s.definitions.Valid
  sets : s.sets.Valid

/-- A store in order: its slots are, and both directions of ownership agree. -/
structure Sound (s : Store) : Prop where
  valid : s.Valid
  consistent : s.ties.Consistent (.set s.root)

variable {s : Store}

lemma ties_formula {key : FormulaKey} {node : FormulaNode} (h : s.formulas.get? key = some node) :
    s.ties (.formula key) = some node.tie := by
  simp [ties, h]

lemma ties_definition {key : DefinitionKey} {node : DefinitionNode}
    (h : s.definitions.get? key = some node) : s.ties (.definition key) = some node.tie := by
  simp [ties, h]

lemma ties_set {key : SetKey} {node : SetNode} (h : s.sets.get? key = some node) :
    s.ties (.set key) = some node.tie := by
  simp [ties, h]

lemma owner_formula {key : FormulaKey} {node : FormulaNode}
    (h : s.formulas.get? key = some node) : s.ties.owner (.formula key) = node.owner := by
  simp [Ties.owner, ties_formula h, FormulaNode.tie]

lemma owner_definition {key : DefinitionKey} {node : DefinitionNode}
    (h : s.definitions.get? key = some node) :
    s.ties.owner (.definition key) = node.owner.map .set := by
  simp [Ties.owner, ties_definition h, DefinitionNode.tie]

lemma owned_formula {key : FormulaKey} {node : FormulaNode}
    (h : s.formulas.get? key = some node) : s.ties.owned (.formula key) = owned node.shape := by
  simp [Ties.owned, ties_formula h, FormulaNode.tie]

lemma owned_definition {key : DefinitionKey} {node : DefinitionNode}
    (h : s.definitions.get? key = some node) :
    s.ties.owned (.definition key) = node.owned := by
  simp [Ties.owned, ties_definition h, DefinitionNode.tie]

lemma owned_set {key : SetKey} {node : SetNode} (h : s.sets.get? key = some node) :
    s.ties.owned (.set key) = node.owned := by
  simp [Ties.owned, ties_set h, SetNode.tie]

lemma owner?_eq (n : NodeKey) : s.owner? n = (s.ties n).map Tie.owner := by
  cases n with
  | formula key => simp [owner?, ties, Function.comp_def, FormulaNode.tie]
  | definition key => simp [owner?, ties, Function.comp_def, DefinitionNode.tie]
  | set key => simp [owner?, ties, Function.comp_def, SetNode.tie]

/-! ## The content of a store -/

/-- A node of any kind. -/
inductive Content where
  | formula (node : FormulaNode)
  | definition (node : DefinitionNode)
  | set (node : SetNode)

/-- What a node shows of ownership. -/
def Content.tie : Content → Tie
  | .formula node => node.tie
  | .definition node => node.tie
  | .set node => node.tie

/-- The node under a key of any kind. -/
def content? (s : Store) : NodeKey → Option Content
  | .formula key => (s.formulas.get? key).map .formula
  | .definition key => (s.definitions.get? key).map .definition
  | .set key => (s.sets.get? key).map .set

lemma ties_eq (s : Store) (n : NodeKey) : s.ties n = (s.content? n).map Content.tie := by
  cases n with
  | formula key => cases h : s.formulas.get? key <;> simp [ties, content?, Content.tie, h]
  | definition key => cases h : s.definitions.get? key <;> simp [ties, content?, Content.tie, h]
  | set key => cases h : s.sets.get? key <;> simp [ties, content?, Content.tie, h]

lemma content?_insertFormula (hs : s.formulas.Valid) (node : FormulaNode) :
    content? { s with formulas := s.formulas.insert node } =
      Function.update s.content? (.formula s.formulas.nextKey) (some (.formula node)) := by
  funext n
  cases n with
  | formula key =>
    by_cases h : key = s.formulas.nextKey <;> simp [content?, Slots.get?_insert hs, h]
  | definition key => simp [content?]
  | set key => simp [content?]

lemma content?_insertDefinition (hs : s.definitions.Valid) (node : DefinitionNode) :
    content? { s with definitions := s.definitions.insert node } =
      Function.update s.content? (.definition s.definitions.nextKey) (some (.definition node)) := by
  funext n
  cases n with
  | formula key => simp [content?]
  | definition key =>
    by_cases h : key = s.definitions.nextKey <;> simp [content?, Slots.get?_insert hs, h]
  | set key => simp [content?]

lemma content?_insertSet (hs : s.sets.Valid) (node : SetNode) :
    content? { s with sets := s.sets.insert node } =
      Function.update s.content? (.set s.sets.nextKey) (some (.set node)) := by
  funext n
  cases n with
  | formula key => simp [content?]
  | definition key => simp [content?]
  | set key => by_cases h : key = s.sets.nextKey <;> simp [content?, Slots.get?_insert hs, h]

lemma content?_modifyFormula (key : FormulaKey) (f : FormulaNode → FormulaNode) :
    content? { s with formulas := s.formulas.modify key f } =
      Function.update s.content? (.formula key)
        ((s.formulas.get? key).map fun node => .formula (f node)) := by
  funext n
  cases n with
  | formula k =>
    by_cases h : k = key <;> simp [content?, Slots.get?_modify, Function.comp_def, h]
  | definition k => simp [content?]
  | set k => simp [content?]

lemma content?_modifyDefinition (key : DefinitionKey) (f : DefinitionNode → DefinitionNode) :
    content? { s with definitions := s.definitions.modify key f } =
      Function.update s.content? (.definition key)
        ((s.definitions.get? key).map fun node => .definition (f node)) := by
  funext n
  cases n with
  | formula k => simp [content?]
  | definition k =>
    by_cases h : k = key <;> simp [content?, Slots.get?_modify, Function.comp_def, h]
  | set k => simp [content?]

lemma content?_modifySet (key : SetKey) (f : SetNode → SetNode) :
    content? { s with sets := s.sets.modify key f } =
      Function.update s.content? (.set key)
        ((s.sets.get? key).map fun node => .set (f node)) := by
  funext n
  cases n with
  | formula k => simp [content?]
  | definition k => simp [content?]
  | set k =>
    by_cases h : k = key <;> simp [content?, Slots.get?_modify, Function.comp_def, h]

/-- The store without one of its nodes. -/
def removeNode (s : Store) : NodeKey → Store
  | .formula key => { s with formulas := s.formulas.remove key }
  | .definition key => { s with definitions := s.definitions.remove key }
  | .set key => { s with sets := s.sets.remove key }

@[simp] lemma removeNode_root (n : NodeKey) : (s.removeNode n).root = s.root := by
  cases n <;> rfl

lemma content?_removeNode (n : NodeKey) :
    (s.removeNode n).content? = Function.update s.content? n none := by
  funext m
  cases n with
  | formula key =>
    cases m with
    | formula k => by_cases h : k = key <;> simp [removeNode, content?, Slots.get?_remove, h]
    | definition k => simp [removeNode, content?]
    | set k => simp [removeNode, content?]
  | definition key =>
    cases m with
    | formula k => simp [removeNode, content?]
    | definition k => by_cases h : k = key <;> simp [removeNode, content?, Slots.get?_remove, h]
    | set k => simp [removeNode, content?]
  | set key =>
    cases m with
    | formula k => simp [removeNode, content?]
    | definition k => simp [removeNode, content?]
    | set k => by_cases h : k = key <;> simp [removeNode, content?, Slots.get?_remove, h]

lemma Valid.removeNode (h : s.Valid) (n : NodeKey) : (s.removeNode n).Valid := by
  cases n with
  | formula key => exact ⟨h.formulas.remove key, h.definitions, h.sets⟩
  | definition key => exact ⟨h.formulas, h.definitions.remove key, h.sets⟩
  | set key => exact ⟨h.formulas, h.definitions, h.sets.remove key⟩

/-! ## Storing, changing and removing nodes -/

/-- If one node is replaced, so is its tie. -/
lemma ties_of_content? {s' : Store} {n : NodeKey} {c : Option Content}
    (h : s'.content? = Function.update s.content? n c) :
    s'.ties = s.ties.write n (c.map Content.tie) := by
  funext m
  rw [ties_eq, h, Ties.write_apply, Function.update_apply, ties_eq]
  split <;> rfl

lemma ties_insertFormula (hs : s.formulas.Valid) (node : FormulaNode) :
    ties { s with formulas := s.formulas.insert node } =
      s.ties.write (.formula s.formulas.nextKey) (some node.tie) :=
  ties_of_content? (content?_insertFormula hs node)

lemma ties_insertDefinition (hs : s.definitions.Valid) (node : DefinitionNode) :
    ties { s with definitions := s.definitions.insert node } =
      s.ties.write (.definition s.definitions.nextKey) (some node.tie) :=
  ties_of_content? (content?_insertDefinition hs node)

lemma ties_insertSet (hs : s.sets.Valid) (node : SetNode) :
    ties { s with sets := s.sets.insert node } =
      s.ties.write (.set s.sets.nextKey) (some node.tie) :=
  ties_of_content? (content?_insertSet hs node)

lemma ties_modifyFormula (key : FormulaKey) (f : FormulaNode → FormulaNode) :
    ties { s with formulas := s.formulas.modify key f } =
      s.ties.write (.formula key) ((s.formulas.get? key).map fun node => (f node).tie) := by
  rw [ties_of_content? (content?_modifyFormula key f), Option.map_map]
  rfl

lemma ties_modifyDefinition (key : DefinitionKey) (f : DefinitionNode → DefinitionNode) :
    ties { s with definitions := s.definitions.modify key f } =
      s.ties.write (.definition key) ((s.definitions.get? key).map fun node => (f node).tie) := by
  rw [ties_of_content? (content?_modifyDefinition key f), Option.map_map]
  rfl

lemma ties_modifySet (key : SetKey) (f : SetNode → SetNode) :
    ties { s with sets := s.sets.modify key f } =
      s.ties.write (.set key) ((s.sets.get? key).map fun node => (f node).tie) := by
  rw [ties_of_content? (content?_modifySet key f), Option.map_map]
  rfl

lemma ties_removeNode (n : NodeKey) : (s.removeNode n).ties = s.ties.write n none :=
  ties_of_content? (content?_removeNode n)

end Formulary.Store
