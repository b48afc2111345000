/-
# Views of a store

A view reads the tree below a node back from the store; its notes are the keys of the nodes.  A
path downwards that is longer than the number of nodes meets a node twice, so reading stops
there: the node is below itself and has no tree.

A program as it is written leaves out what is not written: formulas without a name, and the
cases of a switch after the first one without a condition.
-/
import Formulary.Store.Basic

namespace Formulary

/-- The cases up to the first one without a condition. -/
def Case.upToOtherwise {χ : Type} : List (Case χ) → List (Case χ)
  | [] => []
  | .otherwise value :: _ => [.otherwise value]
  | .when condition value :: cases => .when condition value :: upToOtherwise cases

/-- Changes the formulas of a case, the condition first. -/
def Case.mapM {m : Type → Type} [Monad m] {χ χ' : Type} (f : χ → m χ') : Case χ → m (Case χ')
  | .when condition value => do
    let condition ← f condition
    return .when condition (← f value)
  | .otherwise value => return .otherwise (← f value)

/-- Changes what is below a first layer, in its order. -/
def Shape.mapM {m : Type → Type} [Monad m] {χ χ' β β' : Type} (f : χ → m χ') (g : β → m β') :
    Shape χ β → m (Shape χ' β')
  | .null => return .null
  | .bool value => return .bool value
  | .number value => return .number value
  | .text value => return .text value
  | .name word => return .name word
  | .matrix value => return .matrix value
  | .call callee arguments => do
    let callee ← f callee
    return .call callee (← arguments.mapM f)
  | .list items => return .list (← items.mapM f)
  | .closure parameters body => return .closure parameters (← g body)
  | .switch cases => return .switch (← cases.mapM (Case.mapM f))

/-- A first layer without the cases that are never written. -/
def Shape.written {χ β : Type} : Shape χ β → Shape χ β
  | .switch cases => .switch (Case.upToOtherwise cases)
  | shape => shape

namespace Store

/-- A formula whose parts carry their keys. -/
abbrev FormulaView := Formula FormulaKey DefinitionKey SetKey

/-- A definition whose parts carry their keys. -/
abbrev DefinitionView := Definition FormulaKey DefinitionKey SetKey

/-- A set whose parts carry their keys. -/
abbrev SetView := DefinitionSet FormulaKey DefinitionKey SetKey

/-- How much of a tree is read. -/
inductive Extent where
  /-- Everything. -/
  | whole
  /-- What is written. -/
  | written
deriving DecidableEq, Repr

/-- Why there is no tree below a node. -/
inductive NoView where
  /-- There is no node under some key. -/
  | defect (reason : Defect)
  /-- A node is below itself. -/
  | endless
deriving DecidableEq, Repr

/-- The node under a key that must be valid. -/
def node? {kind : NodeKind} {α : Type} (slots : Slots kind α) (key : Key kind) :
    Except NoView α :=
  match slots.get? key with
  | some node => .ok node
  | none => .error (.defect .invalidKey)

mutual

/-- The tree of a formula, if no path below it has more than `depth` formulas and sets. -/
def readFormula (s : Store) (extent : Extent) : Nat → FormulaKey → Except NoView FormulaView
  | 0, _ => .error .endless
  | depth + 1, key => do
    let node ← node? s.formulas key
    let shape := if extent = .whole then node.shape else node.shape.written
    return .node key (← shape.mapM (s.readFormula extent depth) (s.readSet extent depth))

/-- The tree of a set, if no path below it has more than `depth` formulas and sets. -/
def readSet (s : Store) (extent : Extent) : Nat → SetKey → Except NoView SetView
  | 0, _ => .error .endless
  | depth + 1, key => do
    let node ← node? s.sets key
    let definitions ← node.definitions.mapM fun key => do
      let definition ← node? s.definitions key
      let value ← definition.value.mapM (s.readFormula extent depth)
      return .node key definition.name value
    let floating := if extent = .whole then node.floating else []
    return .node key definitions (← floating.mapM (s.readFormula extent depth))

end

/-- The tree below a formula. -/
def viewFormula (s : Store) (extent : Extent) (key : FormulaKey) : Except NoView FormulaView :=
  s.readFormula extent (s.size + 1) key

/-- The tree below a set. -/
def viewSet (s : Store) (extent : Extent) (key : SetKey) : Except NoView SetView :=
  s.readSet extent (s.size + 1) key

/-- The whole program. -/
def view (s : Store) (extent : Extent) : Except NoView SetView := s.viewSet extent s.root

end Store

end Formulary
