/-
# Storing a program

A program that was read is stored node by node.  An owner is stored before the nodes it owns, so
that they can refer back to it, and is completed when these are stored.
-/
import Formulary.Formula.Placed
import Formulary.Store.Basic

namespace Formulary.Store

open Text

/-- Stores parts of a program. -/
abbrev Storing (α : Type) := StateM Store α

/-- Stores the node of a formula that is not complete yet. -/
def reserveFormula (span : Span) (owner : NodeKey) : Storing FormulaKey :=
  modifyGet fun s =>
    (s.formulas.nextKey, { s with formulas := s.formulas.insert ⟨.null, some owner, some span⟩ })

/-- Completes the node of a formula. -/
def completeFormula (key : FormulaKey) (shape : StoredShape) : Storing Unit :=
  modify fun s =>
    { s with formulas := s.formulas.modify key fun node => { node with shape := shape } }

/-- Stores the node of a definition whose value is not stored yet. -/
def reserveDefinition (span : Span) (name : String) (owner : SetKey) : Storing DefinitionKey :=
  modifyGet fun s =>
    (s.definitions.nextKey,
      { s with definitions := s.definitions.insert ⟨name, none, some owner, some span⟩ })

/-- Completes the node of a definition. -/
def completeDefinition (key : DefinitionKey) (value : FormulaKey) : Storing Unit :=
  modify fun s =>
    { s with
      definitions := s.definitions.modify key fun node => { node with value := some value } }

/-- Stores the node of a set that has no contents yet. -/
def reserveSet (owner : FormulaKey) : Storing SetKey :=
  modifyGet fun s =>
    (s.sets.nextKey, { s with sets := s.sets.insert ⟨[], [], some owner⟩ })

/-- Adds a definition to a set. -/
def appendDefinition (set : SetKey) (key : DefinitionKey) : Storing Unit :=
  modify fun s =>
    { s with
      sets := s.sets.modify set fun node =>
        { node with definitions := node.definitions ++ [key] } }

/-- Adds a formula without a name to a set. -/
def appendFloating (set : SetKey) (key : FormulaKey) : Storing Unit :=
  modify fun s =>
    { s with
      sets := s.sets.modify set fun node => { node with floating := node.floating ++ [key] } }

mutual

/-- Stores a formula under an owner. -/
def storeFormula (owner : NodeKey) : Formula.Placed → Storing FormulaKey
  | .node span shape => do
    let key ← reserveFormula span owner
    let stored ← storeShape key shape
    completeFormula key stored
    return key

/-- Stores what the formula `key` owns. -/
def storeShape (key : FormulaKey) :
    Shape Formula.Placed DefinitionSet.Placed → Storing StoredShape
  | .null => return .null
  | .bool value => return .bool value
  | .number value => return .number value
  | .text value => return .text value
  | .name name => return .name name
  | .matrix value => return .matrix value
  | .call callee arguments => do
    let callee ← storeFormula (.formula key) callee
    return .call callee (← storeFormulas (.formula key) arguments)
  | .list items => return .list (← storeFormulas (.formula key) items)
  | .closure parameters body => do
    let set ← reserveSet key
    storeSet set body
    return .closure parameters set
  | .switch cases => return .switch (← storeCases (.formula key) cases)

/-- Stores formulas under one owner. -/
def storeFormulas (owner : NodeKey) : List Formula.Placed → Storing (List FormulaKey)
  | [] => return []
  | f :: fs => do
    let key ← storeFormula owner f
    return key :: (← storeFormulas owner fs)

/-- Stores cases under one owner. -/
def storeCases (owner : NodeKey) : List (Case Formula.Placed) → Storing (List (Case FormulaKey))
  | [] => return []
  | .when condition value :: cases => do
    let condition ← storeFormula owner condition
    let value ← storeFormula owner value
    return .when condition value :: (← storeCases owner cases)
  | .otherwise value :: cases => do
    let value ← storeFormula owner value
    return .otherwise value :: (← storeCases owner cases)

/-- Stores the contents of a set. -/
def storeSet (set : SetKey) : DefinitionSet.Placed → Storing Unit
  | .node _ definitions floating => do
    storeDefinitions set definitions
    storeFloating set floating

/-- Stores the definitions of a set. -/
def storeDefinitions (set : SetKey) : List Definition.Placed → Storing Unit
  | [] => return ()
  | .node span name none :: ds => do
    let key ← reserveDefinition span name set
    appendDefinition set key
    storeDefinitions set ds
  | .node span name (some value) :: ds => do
    let key ← reserveDefinition span name set
    let formula ← storeFormula (.definition key) value
    completeDefinition key formula
    appendDefinition set key
    storeDefinitions set ds

/-- Stores the formulas of a set that have no name. -/
def storeFloating (set : SetKey) : List Formula.Placed → Storing Unit
  | [] => return ()
  | f :: fs => do
    let key ← storeFormula (.set set) f
    appendFloating set key
    storeFloating set fs

end

/-- The store that holds a program. -/
def ofProgram (program : DefinitionSet.Placed) : Store :=
  (storeSet empty.root program empty).2

end Formulary.Store
