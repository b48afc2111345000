/-
# Edits

An edit changes a store, gives a result, or is refused.  Edits only ever attach nodes that are
detached, and they keep both directions of ownership in step.  Everything that can be refused is
checked before the store is changed.

The small steps that edits are made of come first.  A step that reads or changes a node under a
key that must be valid fails with a defect if it is not.
-/
import Formulary.Store.Basic

namespace Formulary.Store

/-- Changes a store. -/
abbrev Edit (α : Type) := EStateM Fault Store α

/-- Ends an edit. -/
def refuse {α : Type} (reason : Refusal) : Edit α := throw (.refused reason)

/-! ## Reading nodes -/

/-- The node of a formula, which has to exist. -/
def formulaNode (key : FormulaKey) : Edit FormulaNode := do
  match (← get).formulas.get? key with
  | some node => return node
  | none => refuse (.unknownNode (.formula key))

/-- The node of a definition, which has to exist. -/
def definitionNode (key : DefinitionKey) : Edit DefinitionNode := do
  match (← get).definitions.get? key with
  | some node => return node
  | none => refuse (.unknownNode (.definition key))

/-- The node of a set, which has to exist. -/
def setNode (key : SetKey) : Edit SetNode := do
  match (← get).sets.get? key with
  | some node => return node
  | none => refuse (.unknownNode (.set key))

/-- Checks that a node exists and has no owner.  The root does not count as detached. -/
def checkDetached (node : NodeKey) : Edit Unit := do
  let s ← get
  match s.owner? node with
  | none => refuse (.unknownNode node)
  | some owner =>
    if owner.isSome ∨ node = .set s.root then refuse (.alreadyOwned node)

/-! ## Changing nodes -/

/-- Changes a formula that must exist. -/
def changeFormula (key : FormulaKey) (f : FormulaNode → FormulaNode) : Edit Unit := do
  let s ← get
  if (s.formulas.get? key).isSome then set { s with formulas := s.formulas.modify key f }
  else throw (.defect .invalidKey)

/-- Changes a definition that must exist. -/
def changeDefinition (key : DefinitionKey) (f : DefinitionNode → DefinitionNode) :
    Edit Unit := do
  let s ← get
  if (s.definitions.get? key).isSome then
    set { s with definitions := s.definitions.modify key f }
  else throw (.defect .invalidKey)

/-- Changes a set that must exist. -/
def changeSet (key : SetKey) (f : SetNode → SetNode) : Edit Unit := do
  let s ← get
  if (s.sets.get? key).isSome then set { s with sets := s.sets.modify key f }
  else throw (.defect .invalidKey)

/-- Gives a formula an owner, or none. -/
def setFormulaOwner (key : FormulaKey) (owner : Option NodeKey) : Edit Unit :=
  changeFormula key fun node => { node with owner := owner }

/-- Makes a formula the owner of a node. -/
def setOwner (owner : FormulaKey) : NodeKey → Edit Unit
  | .formula key => setFormulaOwner key (some (.formula owner))
  | .definition key => changeDefinition key fun node => { node with owner := none }
  | .set key => changeSet key fun node => { node with owner := some owner }

/-- Stores a formula. -/
def insertFormula (node : FormulaNode) : Edit FormulaKey :=
  modifyGet fun s => (s.formulas.nextKey, { s with formulas := s.formulas.insert node })

/-- Stores a definition. -/
def insertDefinition (node : DefinitionNode) : Edit DefinitionKey :=
  modifyGet fun s => (s.definitions.nextKey, { s with definitions := s.definitions.insert node })

/-- Stores a set. -/
def insertSet (node : SetNode) : Edit SetKey :=
  modifyGet fun s => (s.sets.nextKey, { s with sets := s.sets.insert node })

/-! ## Adding -/

/-- The first element that occurs before itself in the list. -/
def firstRepeated? {α : Type} [DecidableEq α] : List α → Option α :=
  go []
where
  /-- The first element that occurs in `seen` or before itself. -/
  go (seen : List α) : List α → Option α
    | [] => none
    | a :: as => if a ∈ seen then some a else go (a :: seen) as

/-- Adds a detached formula.  The nodes that it owns have to be detached before. -/
def addFormula (shape : StoredShape) : Edit FormulaKey := do
  let nodes := owned shape
  if let some node := firstRepeated? nodes then refuse (.alreadyOwned node)
  nodes.forM checkDetached
  let key ← insertFormula ⟨shape, none, none⟩
  nodes.forM (setOwner key)
  return key

/-- Adds a detached set without contents. -/
def addSet : Edit SetKey := insertSet SetNode.empty

/-- Checks that a formula, if there is one, is detached. -/
def checkDetachedValue (value : Option FormulaKey) : Edit Unit :=
  value.toList.forM fun key => checkDetached (.formula key)

/-- Adds a definition at the end of a set. -/
def addDefinition (set : SetKey) (name : String) (value : Option FormulaKey) :
    Edit DefinitionKey := do
  let _ ← setNode set
  checkDetachedValue value
  let key ← insertDefinition ⟨name, value, some set, none⟩
  value.toList.forM fun v => setFormulaOwner v (some (.definition key))
  changeSet set fun node => { node with definitions := node.definitions ++ [key] }
  return key

/-- Adds a detached formula to those of a set that have no name. -/
def addFloating (set : SetKey) (formula : FormulaKey) : Edit Unit := do
  let _ ← setNode set
  checkDetached (.formula formula)
  changeSet set fun node => { node with floating := node.floating ++ [formula] }
  setFormulaOwner formula (some (.set set))

/-! ## Changing definitions -/

/-- Gives a definition another name. -/
def renameDefinition (definition : DefinitionKey) (name : String) : Edit Unit := do
  let _ ← definitionNode definition
  changeDefinition definition fun node => { node with name := name }

/-- Gives a definition another value, or none.  The value it had is detached then. -/
def setValue (definition : DefinitionKey) (value : Option FormulaKey) :
    Edit (Option FormulaKey) := do
  let node ← definitionNode definition
  checkDetachedValue value
  changeDefinition definition fun node => { node with value := value }
  node.value.toList.forM fun v => setFormulaOwner v none
  value.toList.forM fun v => setFormulaOwner v (some (.definition definition))
  return node.value

/-! ## Moving and removing -/

/-- A case without the given condition. -/
def dropCondition (formula : FormulaKey) : Case FormulaKey → Case FormulaKey
  | .when condition value =>
    if condition = formula then .otherwise value else .when condition value
  | .otherwise value => .otherwise value

/-- The first layer of an owner after a formula was taken away from it; `none` if it cannot
stand without that formula. -/
def without? (formula : FormulaKey) : StoredShape → Option StoredShape
  | .call callee arguments =>
    if callee = formula then none else some (.call callee (arguments.filter (· ≠ formula)))
  | .list items => some (.list (items.filter (· ≠ formula)))
  | .switch cases =>
    if cases.any (·.value = formula) then none
    else some (.switch (cases.map (dropCondition formula)))
  | shape => some shape

/-- Takes a formula away from its owner. -/
def unlink (formula : FormulaKey) : Edit Unit := do
  let node ← formulaNode formula
  match node.owner with
  | none => pure ()
  | some (.definition key) =>
    modify fun s =>
      { s with definitions := s.definitions.modify key fun d => { d with value := none } }
  | some (.set key) =>
    modify fun s =>
      { s with
        sets := s.sets.modify key fun d =>
          { d with floating := d.floating.filter (· ≠ formula) } }
  | some (.formula key) =>
    match (← get).formulas.get? key with
    | none => pure ()
    | some owner =>
      match without? formula owner.shape with
      | none => refuse (.requiredSlot formula)
      | some shape => changeFormula key fun node => { node with shape := shape }
  setFormulaOwner formula none

/-- Removes the nodes in a list and all that they own.  An owner goes before the nodes it owns,
and these go in their order. -/
def free (s : Store) : List NodeKey → Store
  | [] => s
  | .formula key :: nodes =>
    match _found : s.formulas.get? key with
    | none => free s nodes
    | some node => free { s with formulas := s.formulas.remove key } (owned node.shape ++ nodes)
  | .definition key :: nodes =>
    match _found : s.definitions.get? key with
    | none => free s nodes
    | some node =>
      free { s with definitions := s.definitions.remove key } (node.owned ++ nodes)
  | .set key :: nodes =>
    match _found : s.sets.get? key with
    | none => free s nodes
    | some node => free { s with sets := s.sets.remove key } (node.owned ++ nodes)
termination_by nodes => (s.size, nodes.length)
decreasing_by
  · exact Prod.Lex.right _ (by simp)
  · have := Slots.size_remove_lt _found
    exact Prod.Lex.left _ _ (by simp only [size]; omega)
  · exact Prod.Lex.right _ (by simp)
  · have := Slots.size_remove_lt _found
    exact Prod.Lex.left _ _ (by simp only [size]; omega)
  · exact Prod.Lex.right _ (by simp)
  · have := Slots.size_remove_lt _found
    exact Prod.Lex.left _ _ (by simp only [size]; omega)

/-- Takes a formula away from its owner and puts it among those of a set that have no name. -/
def detachFormula (formula : FormulaKey) (into : SetKey) : Edit Unit := do
  let _ ← setNode into
  unlink formula
  addFloating into formula

/-- Takes a formula away from its owner and removes it with all that it owns. -/
def removeFormula (formula : FormulaKey) : Edit Unit := do
  unlink formula
  modify fun s => s.free [.formula formula]

/-- Takes a definition out of its set and removes it with all that it owns. -/
def removeDefinition (definition : DefinitionKey) : Edit Unit := do
  let node ← definitionNode definition
  node.owner.toList.forM fun key =>
    modify fun s =>
      { s with
        sets := s.sets.modify key fun d =>
          { d with definitions := d.definitions.filter (· ≠ definition) } }
  modify fun s => s.free [.definition definition]

end Formulary.Store
