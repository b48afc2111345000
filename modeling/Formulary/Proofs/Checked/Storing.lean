/-
# Checked storing

A node that is completed while a program is stored has to be there, and so does a set that a
definition is added to.  They are, because a node is stored before the nodes below it, and storing
these takes no node away.
-/
import Formulary.Proofs.Checked.Run
import Formulary.Proofs.Store.Loading

namespace Formulary.Checked

open Text Store

/-! ## Steps -/

/-- Stores parts of a program, where a node that is changed has to be there. -/
abbrev Storing (α : Type) := StateT Store (Except Fault) α

/-- Changes the node that a key names, which has to be there. -/
def modify {kind : NodeKind} {α : Type} (slots : Slots kind α) (key : Key kind) (f : α → α) :
    Except Fault (Slots kind α) :=
  match slots.get? key with
  | none => .error .key
  | some _ => .ok (slots.modify key f)

/-- A step that changes no node. -/
def reserve {α : Type} (m : Store.Storing α) : Storing α := fun s => .ok (m s)

/-- Completes the node of a formula. -/
def completeFormula (key : FormulaKey) (shape : StoredShape) : Storing Unit := fun s => do
  let formulas ← modify s.formulas key fun node => { node with shape := shape }
  return ((), { s with formulas := formulas })

/-- Completes the node of a definition. -/
def completeDefinition (key : DefinitionKey) (value : FormulaKey) : Storing Unit := fun s => do
  let definitions ← modify s.definitions key fun node => { node with value := some value }
  return ((), { s with definitions := definitions })

/-- Adds a definition to a set. -/
def appendDefinition (set : SetKey) (key : DefinitionKey) : Storing Unit := fun s => do
  let sets ← modify s.sets set fun node => { node with definitions := node.definitions ++ [key] }
  return ((), { s with sets := sets })

/-- Adds a formula without a name to a set. -/
def appendFloating (set : SetKey) (key : FormulaKey) : Storing Unit := fun s => do
  let sets ← modify s.sets set fun node => { node with floating := node.floating ++ [key] }
  return ((), { s with sets := sets })

/-! ## Trees -/

mutual

/-- Stores a formula under an owner. -/
def storeFormula (owner : NodeKey) : Formula.Placed → Storing FormulaKey
  | .node span shape => do
    let key ← reserve (reserveFormula span owner)
    let stored ← storeShape key shape
    completeFormula key stored
    return key

/-- Stores what the formula `key` owns. -/
def storeShape (key : FormulaKey) :
    Shape Formula.Placed DefinitionSet.Placed → Storing StoredShape
  | .null => return .null
  | .bool value => return .bool value
  | .number value => return .number value
  | .text value => return .text value
  | .name name => return .name name
  | .matrix value => return .matrix value
  | .call callee arguments => do
    let callee ← storeFormula (.formula key) callee
    return .call callee (← storeFormulas (.formula key) arguments)
  | .list items => return .list (← storeFormulas (.formula key) items)
  | .closure parameters body => do
    let set ← reserve (reserveSet key)
    storeSet set body
    return .closure parameters set
  | .switch cases => return .switch (← storeCases (.formula key) cases)

/-- Stores formulas under one owner. -/
def storeFormulas (owner : NodeKey) : List Formula.Placed → Storing (List FormulaKey)
  | [] => return []
  | f :: fs => do
    let key ← storeFormula owner f
    return key :: (← storeFormulas owner fs)

/-- Stores cases under one owner. -/
def storeCases (owner : NodeKey) : List (Case Formula.Placed) → Storing (List (Case FormulaKey))
  | [] => return []
  | .when condition value :: cases => do
    let condition ← storeFormula owner condition
    let value ← storeFormula owner value
    return .when condition value :: (← storeCases owner cases)
  | .otherwise value :: cases => do
    let value ← storeFormula owner value
    return .otherwise value :: (← storeCases owner cases)

/-- Stores the contents of a set. -/
def storeSet (set : SetKey) : DefinitionSet.Placed → Storing Unit
  | .node _ definitions floating => do
    storeDefinitions set definitions
    storeFloating set floating

/-- Stores the definitions of a set. -/
def storeDefinitions (set : SetKey) : List Definition.Placed → Storing Unit
  | [] => return ()
  | .node span name none :: ds => do
    let key ← reserve (reserveDefinition span name set)
    appendDefinition set key
    storeDefinitions set ds
  | .node span name (some value) :: ds => do
    let key ← reserve (reserveDefinition span name set)
    let formula ← storeFormula (.definition key) value
    completeDefinition key formula
    appendDefinition set key
    storeDefinitions set ds

/-- Stores the formulas of a set that have no name. -/
def storeFloating (set : SetKey) : List Formula.Placed → Storing Unit
  | [] => return ()
  | f :: fs => do
    let key ← storeFormula (.set set) f
    appendFloating set key
    storeFloating set fs

end

/-- The store that holds a program. -/
def ofProgram (program : DefinitionSet.Placed) : Except Fault Store :=
  Prod.snd <$> storeSet empty.root program empty

/-! ## What is there -/

variable {α β : Type} {s s' : Store} {o : NodeKey}

/-- A step that meets no fault is gone on with as the step of the store is. -/
lemma storing_bind {m : Storing α} {m' : Store.Storing α} {a : α} (hm : m s = .ok (m' s))
    (hrun : m' s = (a, s')) {f : α → Storing β} {f' : α → Store.Storing β}
    (hf : f a s' = .ok (f' a s')) : (m >>= f) s = .ok ((m' >>= f') s) := by
  have hbind : (m >>= f) s = (m s >>= fun p => f p.1 p.2) := rfl
  rw [hbind, hm, hrun, Store.storing_bind hrun]
  exact hf

lemma modify_eq {kind : NodeKind} {slots : Slots kind α} {key : Key kind} {node : α}
    (h : slots.get? key = some node) (f : α → α) :
    modify slots key f = .ok (slots.modify key f) := by
  rw [modify, h]

lemma completeFormula_eq {key : FormulaKey} (h : (s.ties (.formula key)).isSome)
    (shape : StoredShape) :
    completeFormula key shape s = .ok (Store.completeFormula key shape s) := by
  obtain ⟨node, hnode⟩ := isSome_ties_formula.mp h
  rw [completeFormula, modify_eq hnode]
  rfl

lemma completeDefinition_eq {key : DefinitionKey} (h : (s.ties (.definition key)).isSome)
    (value : FormulaKey) :
    completeDefinition key value s = .ok (Store.completeDefinition key value s) := by
  obtain ⟨node, hnode⟩ := isSome_ties_definition.mp h
  rw [completeDefinition, modify_eq hnode]
  rfl

lemma appendDefinition_eq {set : SetKey} (h : (s.ties (.set set)).isSome) (key : DefinitionKey) :
    appendDefinition set key s = .ok (Store.appendDefinition set key s) := by
  obtain ⟨node, hnode⟩ := isSome_ties_set.mp h
  rw [appendDefinition, modify_eq hnode]
  rfl

lemma appendFloating_eq {set : SetKey} (h : (s.ties (.set set)).isSome) (key : FormulaKey) :
    appendFloating set key s = .ok (Store.appendFloating set key s) := by
  obtain ⟨node, hnode⟩ := isSome_ties_set.mp h
  rw [appendFloating, modify_eq hnode]
  rfl

mutual

theorem storeFormula_eq (owner : NodeKey) :
    ∀ (f : Formula.Placed) (s : Store), s.Valid → (s.ties owner).isSome →
      storeFormula owner f s = .ok (Store.storeFormula owner f s)
  | .node span shape => by
    intro s hs ho
    have hres := reserveFormula_reserves hs span owner
    obtain ⟨stored, s₁, hrun, hgrows⟩ :=
      storeShape_grows s.formulas.nextKey shape _ hres.valid hres.isSome
    rw [storeFormula, Store.storeFormula]
    refine storing_bind rfl (reserveFormula_apply _ _) ?_
    refine storing_bind (storeShape_eq _ shape _ hres.valid hres.isSome) hrun ?_
    exact storing_bind (completeFormula_eq hgrows.isSome stored) rfl rfl

theorem storeShape_eq (key : FormulaKey) :
    ∀ (shape : Shape Formula.Placed DefinitionSet.Placed) (s : Store), s.Valid →
      (s.ties (.formula key)).isSome → storeShape key shape s = .ok (Store.storeShape key shape s)
  | .null, _, _, _ => rfl
  | .bool value, _, _, _ => rfl
  | .number value, _, _, _ => rfl
  | .text value, _, _, _ => rfl
  | .name name, _, _, _ => rfl
  | .matrix value, _, _, _ => rfl
  | .call callee arguments, s, hs, ho => by
    obtain ⟨k, s₁, hrun₁, hgrows₁, -⟩ := storeFormula_grows (.formula key) callee s hs ho
    rw [storeShape, Store.storeShape]
    refine storing_bind (storeFormula_eq _ callee s hs ho) hrun₁ ?_
    exact storing_bind (storeFormulas_eq _ arguments s₁ hgrows₁.valid hgrows₁.isSome) rfl rfl
  | .list items, s, hs, ho => by
    rw [storeShape, Store.storeShape]
    exact storing_bind (storeFormulas_eq _ items s hs ho) rfl rfl
  | .closure parameters body, s, hs, ho => by
    have hres := reserveSet_reserves hs key
    rw [storeShape, Store.storeShape]
    refine storing_bind rfl (reserveSet_apply _) ?_
    exact storing_bind (storeSet_eq _ body _ hres.valid hres.isSome) rfl rfl
  | .switch cases, s, hs, ho => by
    rw [storeShape, Store.storeShape]
    exact storing_bind (storeCases_eq _ cases s hs ho) rfl rfl

theorem storeFormulas_eq (owner : NodeKey) :
    ∀ (fs : List Formula.Placed) (s : Store), s.Valid → (s.ties owner).isSome →
      storeFormulas owner fs s = .ok (Store.storeFormulas owner fs s)
  | [], _, _, _ => rfl
  | f :: fs, s, hs, ho => by
    obtain ⟨k, s₁, hrun₁, hgrows₁, -⟩ := storeFormula_grows owner f s hs ho
    rw [storeFormulas, Store.storeFormulas]
    refine storing_bind (storeFormula_eq owner f s hs ho) hrun₁ ?_
    exact storing_bind (storeFormulas_eq owner fs s₁ hgrows₁.valid hgrows₁.isSome) rfl rfl

theorem storeCases_eq (owner : NodeKey) :
    ∀ (cs : List (Case Formula.Placed)) (s : Store), s.Valid → (s.ties owner).isSome →
      storeCases owner cs s = .ok (Store.storeCases owner cs s)
  | [], _, _, _ => rfl
  | .when condition value :: cs, s, hs, ho => by
    obtain ⟨k, s₁, hrun₁, hgrows₁, -⟩ := storeFormula_grows owner condition s hs ho
    obtain ⟨l, s₂, hrun₂, hgrows₂, -⟩ :=
      storeFormula_grows owner value s₁ hgrows₁.valid hgrows₁.isSome
    rw [storeCases, Store.storeCases]
    refine storing_bind (storeFormula_eq owner condition s hs ho) hrun₁ ?_
    refine storing_bind (storeFormula_eq owner value s₁ hgrows₁.valid hgrows₁.isSome) hrun₂ ?_
    exact storing_bind (storeCases_eq owner cs s₂ hgrows₂.valid hgrows₂.isSome) rfl rfl
  | .otherwise value :: cs, s, hs, ho => by
    obtain ⟨l, s₁, hrun₁, hgrows₁, -⟩ := storeFormula_grows owner value s hs ho
    rw [storeCases, Store.storeCases]
    refine storing_bind (storeFormula_eq owner value s hs ho) hrun₁ ?_
    exact storing_bind (storeCases_eq owner cs s₁ hgrows₁.valid hgrows₁.isSome) rfl rfl

theorem storeSet_eq (set : SetKey) :
    ∀ (d : DefinitionSet.Placed) (s : Store), s.Valid → (s.ties (.set set)).isSome →
      storeSet set d s = .ok (Store.storeSet set d s)
  | .node note definitions floating, s, hs, ho => by
    obtain ⟨s₁, ks, hrun₁, hgrows₁, -⟩ := storeDefinitions_grows set definitions s hs ho
    rw [storeSet, Store.storeSet]
    refine storing_bind (storeDefinitions_eq set definitions s hs ho) hrun₁ ?_
    exact storeFloating_eq set floating s₁ hgrows₁.valid hgrows₁.isSome

theorem storeDefinitions_eq (set : SetKey) :
    ∀ (ds : List Definition.Placed) (s : Store), s.Valid → (s.ties (.set set)).isSome →
      storeDefinitions set ds s = .ok (Store.storeDefinitions set ds s)
  | [], _, _, _ => rfl
  | .node span name none :: ds, s, hs, ho => by
    have hres := reserveDefinition_reserves hs span name set
    obtain ⟨hgrows₁, hkeep⟩ :=
      (Grows.refl hres.valid hres.isSome).node ho hres (by rw [hres.owned_eq])
    have hlists := appendDefinition_lists hgrows₁.valid hgrows₁.isSome s.definitions.nextKey
    obtain ⟨hgrows₂, -⟩ := hgrows₁.lists hkeep hlists ho
    rw [storeDefinitions, Store.storeDefinitions]
    refine storing_bind rfl (reserveDefinition_apply _ _ _) ?_
    refine storing_bind (appendDefinition_eq hgrows₁.isSome _) rfl ?_
    exact storeDefinitions_eq set ds _ hgrows₂.valid hgrows₂.isSome
  | .node span name (some value) :: ds, s, hs, ho => by
    have hres := reserveDefinition_reserves hs span name set
    obtain ⟨k, s₁, hrun₁, hvalue, -⟩ :=
      storeFormula_grows (.definition s.definitions.nextKey) value _ hres.valid hres.isSome
    obtain ⟨hvalue', howned⟩ := hvalue.complete hres.isSome
      (hvalue.valid.modifyDefinition _ _) rfl (ties_completeDefinition s.definitions.nextKey k)
    obtain ⟨hgrows₁, hkeep⟩ := hvalue'.node ho hres (by rw [howned])
    have hlists := appendDefinition_lists hgrows₁.valid hgrows₁.isSome s.definitions.nextKey
    obtain ⟨hgrows₂, -⟩ := hgrows₁.lists hkeep hlists ho
    rw [storeDefinitions, Store.storeDefinitions]
    refine storing_bind rfl (reserveDefinition_apply _ _ _) ?_
    refine storing_bind (storeFormula_eq _ value _ hres.valid hres.isSome) hrun₁ ?_
    refine storing_bind (completeDefinition_eq hvalue.isSome k) rfl ?_
    refine storing_bind (appendDefinition_eq hgrows₁.isSome _) rfl ?_
    exact storeDefinitions_eq set ds _ hgrows₂.valid hgrows₂.isSome

theorem storeFloating_eq (set : SetKey) :
    ∀ (fs : List Formula.Placed) (s : Store), s.Valid → (s.ties (.set set)).isSome →
      storeFloating set fs s = .ok (Store.storeFloating set fs s)
  | [], _, _, _ => rfl
  | f :: fs, s, hs, ho => by
    obtain ⟨k, s₁, hrun₁, hgrows₁, hkeep⟩ := storeFormula_grows (.set set) f s hs ho
    have hlists := appendFloating_lists hgrows₁.valid hgrows₁.isSome k
    obtain ⟨hgrows₂, -⟩ := hgrows₁.lists hkeep hlists ho
    rw [storeFloating, Store.storeFloating]
    refine storing_bind (storeFormula_eq _ f s hs ho) hrun₁ ?_
    refine storing_bind (appendFloating_eq hgrows₁.isSome k) rfl ?_
    exact storeFloating_eq set fs _ hgrows₂.valid hgrows₂.isSome

end

/-- Storing a program meets no fault. -/
lemma ofProgram_eq (program : DefinitionSet.Placed) :
    ofProgram program = .ok (Store.ofProgram program) := by
  rw [ofProgram, storeSet_eq _ program _ sound_empty.valid sound_empty.consistent.root_isSome]
  rfl

end Formulary.Checked
