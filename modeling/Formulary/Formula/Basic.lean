/-
# Formulas

A program is a set of definitions, each of which gives a name to a formula.  A formula may be a
closure, whose body is again a set of definitions: the result of the closure is the definition
named by the equals sign, and the others are local to it.  Besides its definitions a set may
hold formulas that have no name.

The first layer of a formula is a `Shape`, in which the places of inner formulas and of the
inner set are left open.  Trees fill them with trees; a store of nodes fills them with the keys
of other nodes.  The formulas, definitions and sets of a tree each carry a note: the span they
were read from, the key they are stored under, or nothing.
-/
import Formulary.Number.Binary64
import Formulary.Word

namespace Formulary

/-- A value that is written out in full, possibly nested. -/
inductive Matrix where
  | null
  | bool (value : Bool)
  | number (value : Binary64)
  | text (value : String)
  | array (entries : List Matrix)
deriving Repr, Inhabited

namespace Matrix

mutual

/-- Whether two values are equal. -/
def beq : Matrix → Matrix → Bool
  | .null, .null => true
  | .bool a, .bool b => a == b
  | .number x, .number y => x == y
  | .text s, .text t => s == t
  | .array ms, .array ns => allBeq ms ns
  | _, _ => false

/-- Whether two lists of values are equal. -/
def allBeq : List Matrix → List Matrix → Bool
  | [], [] => true
  | m :: ms, n :: ns => m.beq n && allBeq ms ns
  | _, _ => false

end

mutual

theorem beq_iff : ∀ m n : Matrix, m.beq n = true ↔ m = n
  | .null, n | .bool _, n | .number _, n | .text _, n => by cases n <;> simp [beq]
  | .array ms, n => by cases n <;> simp [beq, allBeq_iff ms]

theorem allBeq_iff : ∀ ms ns : List Matrix, allBeq ms ns = true ↔ ms = ns
  | [], ns => by cases ns <;> simp [allBeq]
  | m :: ms, ns => by cases ns <;> simp [allBeq, beq_iff m, allBeq_iff ms]

end

instance : DecidableEq Matrix := fun m n => decidable_of_iff _ (beq_iff m n)

end Matrix

/-- A case of a switch; `χ` stands for formulas. -/
inductive Case (χ : Type) where
  /-- The value applies if the condition holds. -/
  | when (condition value : χ)
  /-- The value applies in any case. -/
  | otherwise (value : χ)
deriving DecidableEq, Repr

namespace Case

/-- The value of a case. -/
def value {χ : Type} : Case χ → χ
  | .when _ value => value
  | .otherwise value => value

/-- The condition of a case, if it has one. -/
def condition? {χ : Type} : Case χ → Option χ
  | .when condition _ => some condition
  | .otherwise _ => none

/-- The condition, if there is one, and the value. -/
def parts {χ : Type} : Case χ → List χ
  | .when condition value => [condition, value]
  | .otherwise value => [value]

end Case

/-- The first layer of a formula; `χ` stands for the formulas below it and `β` for a set of
definitions. -/
inductive Shape (χ β : Type) where
  /-- The absent value. -/
  | null
  /-- A truth value. -/
  | bool (value : Bool)
  /-- A number. -/
  | number (value : Binary64)
  /-- A text. -/
  | text (value : String)
  /-- The formula that a name stands for. -/
  | name (name : String)
  /-- A formula applied to arguments.  An operation with two operands is a call of the name of
  its operator. -/
  | call (callee : χ) (arguments : List χ)
  /-- A list of formulas. -/
  | list (items : List χ)
  /-- A list of values that are written out in full. -/
  | matrix (value : Matrix)
  /-- A function of its parameters, with its definitions. -/
  | closure (parameters : List String) (body : β)
  /-- A choice among cases. -/
  | switch (cases : List (Case χ))
deriving Repr

mutual

/-- A formula with notes: `ε` for formulas, `δ` for definitions and `σ` for sets. -/
inductive Formula (ε δ σ : Type) where
  | node (note : ε) (shape : Shape (Formula ε δ σ) (DefinitionSet ε δ σ))

/-- A definition: a name and the formula it stands for, if it stands for one. -/
inductive Definition (ε δ σ : Type) where
  | node (note : δ) (name : String) (value : Option (Formula ε δ σ))

/-- A set of definitions, and the formulas kept beside them. -/
inductive DefinitionSet (ε δ σ : Type) where
  | node (note : σ) (definitions : List (Definition ε δ σ)) (floating : List (Formula ε δ σ))

end

variable {ε δ σ : Type}

namespace Formula

/-- The note of a formula. -/
def note : Formula ε δ σ → ε
  | node note _ => note

/-- The first layer of a formula. -/
def shape : Formula ε δ σ → Shape (Formula ε δ σ) (DefinitionSet ε δ σ)
  | node _ shape => shape

/-- The value of a formula that is written out in full. -/
def matrix? : Formula ε δ σ → Option Matrix
  | .node _ .null => some .null
  | .node _ (.bool value) => some (.bool value)
  | .node _ (.number value) => some (.number value)
  | .node _ (.text value) => some (.text value)
  | .node _ (.matrix value) => some value
  | _ => none

/-- A list of formulas, which is a matrix if all of them are written out in full. -/
def ofItems (note : ε) (items : List (Formula ε δ σ)) : Formula ε δ σ :=
  match items.mapM matrix? with
  | some entries => .node note (.matrix (.array entries))
  | none => .node note (.list items)

end Formula

namespace Definition

/-- The note of a definition. -/
def note : Definition ε δ σ → δ
  | node note _ _ => note

/-- The name that is defined. -/
def name : Definition ε δ σ → String
  | node _ name _ => name

/-- The formula that the name stands for. -/
def value : Definition ε δ σ → Option (Formula ε δ σ)
  | node _ _ value => value

end Definition

namespace DefinitionSet

/-- The note of a set. -/
def note : DefinitionSet ε δ σ → σ
  | node note _ _ => note

/-- The definitions of a set in their order. -/
def definitions : DefinitionSet ε δ σ → List (Definition ε δ σ)
  | node _ definitions _ => definitions

/-- The formulas of a set that have no name. -/
def floating : DefinitionSet ε δ σ → List (Formula ε δ σ)
  | node _ _ floating => floating

end DefinitionSet

/-- The name of the definition that holds the result of a closure. -/
def resultName : String := Word.equalsSign

end Formulary
