/-
# Stores

A store holds the formulas, definitions and sets of a program as nodes that refer to each other
by their keys.  A node lists the nodes that it owns, and each of these refers back to its owner.
One set is the root of the program.  Nodes without an owner other than the root are detached:
they wait to be put somewhere.
-/
import Formulary.Parsing.Failure
import Formulary.Formula.Basic
import Formulary.Store.Slots
import Formulary.Text.Position

namespace Formulary

open Text

namespace Store

/-- The key of a formula. -/
abbrev FormulaKey := Key .formula

/-- The key of a definition. -/
abbrev DefinitionKey := Key .definition

/-- The key of a set of definitions. -/
abbrev SetKey := Key .set

/-- The key of a node of any kind. -/
inductive NodeKey where
  | formula (key : FormulaKey)
  | definition (key : DefinitionKey)
  | set (key : SetKey)
deriving DecidableEq, Repr

/-- The first layer of a stored formula. -/
abbrev StoredShape := Shape FormulaKey SetKey

/-- A stored formula. -/
structure FormulaNode where
  /-- Its first layer. -/
  shape : StoredShape
  /-- Its owner, if it is not detached: a definition, a formula, or the set in which it has no
  name. -/
  owner : Option NodeKey
  /-- Where it was read, if it was read. -/
  span : Option Span
deriving Repr

/-- A stored definition. -/
structure DefinitionNode where
  /-- The name that is defined. -/
  name : String
  /-- The formula that the name stands for. -/
  value : Option FormulaKey
  /-- The set that it belongs to. -/
  owner : Option SetKey
  /-- Where it was read, if it was read. -/
  span : Option Span
deriving Repr

/-- A stored set of definitions. -/
structure SetNode where
  /-- Its definitions in their order. -/
  definitions : List DefinitionKey
  /-- Its formulas that have no name. -/
  floating : List FormulaKey
  /-- The closure whose body it is, if it is neither the root nor detached. -/
  owner : Option FormulaKey
deriving Repr

/-- A set without contents and owner. -/
def SetNode.empty : SetNode := ⟨[], [], none⟩

end Store

open Store in
/-- The nodes of a program that is being edited. -/
structure Store where
  /-- The formulas. -/
  formulas : Slots .formula FormulaNode
  /-- The definitions. -/
  definitions : Slots .definition DefinitionNode
  /-- The sets of definitions. -/
  sets : Slots .set SetNode
  /-- The set that makes up the program. -/
  root : SetKey
deriving Repr

namespace Store

/-- No sets, not even a root. -/
def noSets : Slots .set SetNode := .empty

/-- The program without definitions. -/
def empty : Store where
  formulas := .empty
  definitions := .empty
  sets := noSets.insert SetNode.empty
  root := noSets.nextKey

/-- The number of nodes. -/
def size (s : Store) : Nat := s.formulas.size + s.definitions.size + s.sets.size

/-! ## Owned nodes -/

/-- The nodes that a formula with the given first layer owns, in their order. -/
def owned : StoredShape → List NodeKey
  | .call callee arguments => .formula callee :: arguments.map .formula
  | .list items => items.map .formula
  | .closure _ body => [.set body]
  | .switch cases => (cases.flatMap Case.parts).map .formula
  | .null | .bool _ | .number _ | .text _ | .name _ | .matrix _ => []

/-- The nodes that a definition owns. -/
def DefinitionNode.owned (node : DefinitionNode) : List NodeKey :=
  node.value.toList.map .formula

/-- The nodes that a set owns, its definitions first. -/
def SetNode.owned (node : SetNode) : List NodeKey :=
  node.definitions.map .definition ++ node.floating.map .formula

/-! ## Faults -/

/-- Why an edit is refused. -/
inductive Refusal where
  /-- There is no such node. -/
  | unknownNode (node : NodeKey)
  /-- The node is not detached. -/
  | alreadyOwned (node : NodeKey)
  /-- The formula cannot be taken away from its owner. -/
  | requiredSlot (formula : FormulaKey)
  /-- The node does not refer back to its owner. -/
  | brokenOwner (node : NodeKey)
deriving DecidableEq, Repr

/-- How an edit ends without a result. -/
inductive Fault where
  /-- The edit is refused. -/
  | refused (reason : Refusal)
  /-- The edit should not have been asked for. -/
  | defect (reason : Defect)
deriving DecidableEq, Repr

/-- The slot number that no slot ever has.  A key with it names nothing, whatever its version. -/
def nullSlot : Nat := 0xffffffff

/-- A key as it is shown, without its kind. -/
def Key.display {kind : NodeKind} (key : Key kind) : String :=
  if key.slot = nullSlot then "(null)" else s!"({key.slot}v{key.version})"

/-- The key of a formula as it is shown. -/
def displayFormula (key : FormulaKey) : String := "ExprId" ++ key.display

/-- A node as it is named in messages. -/
def NodeKey.describe : NodeKey → String
  | .formula key => s!"expression {displayFormula key}"
  | .definition key => s!"definition DefId{key.display}"
  | .set key => s!"definition set DefsId{key.display}"

/-- The node that a refusal is about. -/
def Refusal.node : Refusal → NodeKey
  | .unknownNode node | .alreadyOwned node | .brokenOwner node => node
  | .requiredSlot formula => .formula formula

/-- What is reported. -/
def Refusal.message : Refusal → String
  | .unknownNode node => s!"the {node.describe} does not exist"
  | .alreadyOwned node => s!"the {node.describe} is already owned by another node"
  | .requiredSlot formula =>
    s!"the expression {displayFormula formula} cannot be detached from its owner"
  | .brokenOwner node => s!"the parent link of the {node.describe} does not match its owner"

/-! ## Looking at nodes -/

/-- The owner of a node; `none` if there is no such node. -/
def owner? (s : Store) : NodeKey → Option (Option NodeKey)
  | .formula key => (s.formulas.get? key).map (·.owner)
  | .definition key => (s.definitions.get? key).map fun node => node.owner.map .set
  | .set key => (s.sets.get? key).map fun node => node.owner.map .formula

/-- Checks that a node has the given owner. -/
def checkOwner (s : Store) (owner : Option NodeKey) (node : NodeKey) : Except Refusal Unit :=
  match s.owner? node with
  | none => .error (.unknownNode node)
  | some actual => if actual = owner then .ok () else .error (.brokenOwner node)

/-- Every owner with a node that it owns, once for each time that the owner lists it. -/
def links (s : Store) : List (NodeKey × NodeKey) :=
  (s.sets.entries.flatMap fun (key, node) => node.owned.map fun n => (.set key, n)) ++
  (s.definitions.entries.flatMap fun (key, node) =>
    node.owned.map fun n => (.definition key, n)) ++
  (s.formulas.entries.flatMap fun (key, node) =>
    (owned node.shape).map fun n => (.formula key, n))

/-- Checks that the root has no owner and that every owned node refers back to its owner. -/
def checkOwners (s : Store) : Except Refusal Unit := do
  s.checkOwner none (.set s.root)
  s.links.forM fun (owner, node) => s.checkOwner (some owner) node

end Store

end Formulary
