/-
# Stored programs are in order

Storing a part of a program only adds nodes below the owner that it is stored under.  The
functions that store the parts call each other along the tree, so this is one induction over the
tree.  Each of them stores nodes that refer back to their owner at once; the owner lists them
when it is completed.
-/
import Formulary.Proofs.Store.Effects
import Formulary.Proofs.Store.Growth
import Formulary.Store.Load

namespace Formulary.Store

open Text

variable {s s' s'' : Store} {o : NodeKey} {ks ls : List NodeKey}

/-- The store `s'` comes from `s` by storing nodes below `o`, those in `ks` directly. -/
structure Grows (s s' : Store) (o : NodeKey) (ks : List NodeKey) : Prop where
  valid : s'.Valid
  root_eq : s'.root = s.root
  grown : s.ties.Grown s'.ties o ks

lemma Grows.refl (hs : s.Valid) (ho : (s.ties o).isSome) : Grows s s o [] :=
  ⟨hs, rfl, .refl ho⟩

lemma Grows.append (h : Grows s s' o ks) (h' : Grows s' s'' o ls) (ho : (s.ties o).isSome) :
    Grows s s'' o (ks ++ ls) :=
  ⟨h'.valid, h'.root_eq.trans h.root_eq, h.grown.append h'.grown ho⟩

lemma Grows.isSome (h : Grows s s' o ks) : (s'.ties o).isSome := h.grown.owner_isSome

/-! ## Nodes -/

lemma storing_bind {α β : Type} {m : Storing α} {a : α} (h : m s = (a, s'))
    (f : α → Storing β) : (m >>= f) s = f a s' := by
  show f (m s).1 (m s).2 = f a s'
  rw [h]

/-- A node without contents is stored under an owner. -/
structure Reserves (s s' : Store) (o key : NodeKey) : Prop where
  valid : s'.Valid
  root_eq : s'.root = s.root
  fresh : s.ties key = none
  ties_eq : s'.ties = s.ties.write key (some ⟨some o, []⟩)

lemma reserveFormula_apply (span : Span) (owner : NodeKey) :
    reserveFormula span owner s = (s.formulas.nextKey, (reserveFormula span owner s).2) := rfl

lemma reserveFormula_reserves (hs : s.Valid) (span : Span) (owner : NodeKey) :
    Reserves s (reserveFormula span owner s).2 owner (.formula s.formulas.nextKey) where
  valid := ⟨hs.formulas.insert _, hs.definitions, hs.sets⟩
  root_eq := rfl
  fresh := by simp [ties, Slots.get?_nextKey]
  ties_eq := ties_insertFormula hs.formulas _

lemma reserveDefinition_apply (span : Span) (name : String) (set : SetKey) :
    reserveDefinition span name set s =
      (s.definitions.nextKey, (reserveDefinition span name set s).2) := rfl

lemma reserveDefinition_reserves (hs : s.Valid) (span : Span) (name : String) (set : SetKey) :
    Reserves s (reserveDefinition span name set s).2 (.set set)
      (.definition s.definitions.nextKey) where
  valid := ⟨hs.formulas, hs.definitions.insert _, hs.sets⟩
  root_eq := rfl
  fresh := by simp [ties, Slots.get?_nextKey]
  ties_eq := ties_insertDefinition hs.definitions _

lemma reserveSet_apply (owner : FormulaKey) :
    reserveSet owner s = (s.sets.nextKey, (reserveSet owner s).2) := rfl

lemma reserveSet_reserves (hs : s.Valid) (owner : FormulaKey) :
    Reserves s (reserveSet owner s).2 (.formula owner) (.set s.sets.nextKey) where
  valid := ⟨hs.formulas, hs.definitions, hs.sets.insert _⟩
  root_eq := rfl
  fresh := by simp [ties, Slots.get?_nextKey]
  ties_eq := ties_insertSet hs.sets _

lemma Reserves.isSome {key : NodeKey} (h : Reserves s s' o key) : (s'.ties key).isSome := by
  rw [h.ties_eq, Ties.write_apply, if_pos rfl]
  rfl

lemma Reserves.owned_eq {key : NodeKey} (h : Reserves s s' o key) : s'.ties.owned key = [] := by
  rw [h.ties_eq, Ties.owned_write, if_pos rfl]
  rfl

lemma ties_completeFormula (key : FormulaKey) (shape : StoredShape) :
    ((completeFormula key shape s).2).ties = s.ties.setOwned (.formula key) (owned shape) := by
  show ties { s with formulas := s.formulas.modify key fun node => { node with shape := shape } } = _
  rw [ties_modifyFormula]
  cases h : s.formulas.get? key with
  | none => simp [Ties.setOwned, ties, h]
  | some node => simp [Ties.setOwned, ties, h, FormulaNode.tie]

lemma ties_completeDefinition (key : DefinitionKey) (value : FormulaKey) :
    ((completeDefinition key value s).2).ties =
      s.ties.setOwned (.definition key) [.formula value] := by
  show ties { s with
    definitions := s.definitions.modify key fun node => { node with value := some value } } = _
  rw [ties_modifyDefinition]
  cases h : s.definitions.get? key with
  | none => simp [Ties.setOwned, ties, h]
  | some node => simp [Ties.setOwned, ties, h, DefinitionNode.tie, DefinitionNode.owned]

/-- A set lists one more node once a definition or a formula without a name was added. -/
structure Lists (s s' : Store) (set : SetKey) (n : NodeKey) : Prop where
  valid : s'.Valid
  root_eq : s'.root = s.root
  ties_eq : ∃ ns, ns.Perm (n :: s.ties.owned (.set set)) ∧
    s'.ties = s.ties.setOwned (.set set) ns

lemma appendDefinition_lists (hs : s.Valid) {set : SetKey} (h : (s.ties (.set set)).isSome)
    (d : DefinitionKey) : Lists s (appendDefinition set d s).2 set (.definition d) := by
  obtain ⟨node, hnode⟩ := isSome_ties_set.mp h
  obtain ⟨ns, hperm, s', hrun, hvalid, hroot, hties⟩ := changeSet_definition hs h d
  rw [changeSet_apply hnode] at hrun
  cases hrun
  exact ⟨hvalid, hroot, ns, hperm, hties⟩

lemma appendFloating_lists (hs : s.Valid) {set : SetKey} (h : (s.ties (.set set)).isSome)
    (f : FormulaKey) : Lists s (appendFloating set f s).2 set (.formula f) := by
  obtain ⟨node, hnode⟩ := isSome_ties_set.mp h
  obtain ⟨ns, hperm, s', hrun, hvalid, hroot, hties⟩ := changeSet_floating hs h f
  rw [changeSet_apply hnode] at hrun
  cases hrun
  exact ⟨hvalid, hroot, ns, hperm, hties⟩

/-- A node is stored below a set, and then listed by it. -/
lemma Grows.lists {set : SetKey} {n : NodeKey} (h : Grows s s' (.set set) [n])
    (hkeep : s'.ties (.set set) = s.ties (.set set)) (hlists : Lists s' s'' set n)
    (hset : (s.ties (.set set)).isSome) :
    Grows s s'' (.set set) [n] ∧
      (s''.ties.owned (.set set)).Perm (n :: s.ties.owned (.set set)) := by
  obtain ⟨ns, hperm, hties⟩ := hlists.ties_eq
  refine ⟨⟨hlists.valid, hlists.root_eq.trans h.root_eq, ?_⟩, ?_⟩
  · rw [hties]
    exact h.grown.setOwned hset ns
  · have howned : s'.ties.owned (.set set) = s.ties.owned (.set set) := by
      simp only [Ties.owned, hkeep]
    rw [hties, Ties.owned_setOwned h.isSome, if_pos rfl, ← howned]
    exact hperm

/-- The contents of a set grow at its end. -/
lemma Grows.perm {set : SetKey} {n : NodeKey}
    (h : (s'.ties.owned (.set set)).Perm (n :: s.ties.owned (.set set)))
    (h' : (s''.ties.owned (.set set)).Perm (s'.ties.owned (.set set) ++ ks)) :
    (s''.ties.owned (.set set)).Perm (s.ties.owned (.set set) ++ n :: ks) :=
  (h'.trans (h.append_right ks)).trans List.perm_middle.symm

/-- The owner of what was stored is completed. -/
lemma Grows.complete (h : Grows s s' o ks) (ho : (s.ties o).isSome) (hvalid : s''.Valid)
    (hroot : s''.root = s'.root) (hties : s''.ties = s'.ties.setOwned o ks) :
    Grows s s'' o ks ∧ s''.ties.owned o = ks := by
  refine ⟨⟨hvalid, hroot.trans h.root_eq, ?_⟩, ?_⟩
  · rw [hties]
    exact h.grown.setOwned ho ks
  · rw [hties, Ties.owned_setOwned h.isSome, if_pos rfl]

/-- A node was reserved under an owner, and then all that it owns was stored. -/
lemma Grows.node {key : NodeKey} {s₀ : Store} (ho : (s.ties o).isSome)
    (hres : Reserves s s₀ o key) (h : Grows s₀ s' key ks) (hperm : (s'.ties.owned key).Perm ks) :
    Grows s s' o [key] ∧ s'.ties o = s.ties o := by
  have hgrown := h.grown
  rw [hres.ties_eq] at hgrown
  obtain ⟨hgrown', hkeep⟩ := hgrown.node hres.fresh ho hperm
  exact ⟨⟨h.valid, h.root_eq.trans hres.root_eq, hgrown'⟩, hkeep⟩

/-! ## The induction -/

/-- A formula is stored under an owner, which is left as it was. -/
def StoresFormula (owner : NodeKey) (f : Formula.Placed) : Prop :=
  ∀ s : Store, s.Valid → (s.ties owner).isSome → ∃ key s', storeFormula owner f s = (key, s') ∧
    Grows s s' owner [.formula key] ∧ s'.ties owner = s.ties owner

mutual

theorem storeFormula_grows (owner : NodeKey) :
    ∀ f : Formula.Placed, StoresFormula owner f
  | .node span shape => by
    intro s hs ho
    have hres := reserveFormula_reserves hs span owner
    obtain ⟨stored, s₁, hrun, hgrows⟩ :=
      storeShape_grows s.formulas.nextKey shape _ hres.valid hres.isSome
    obtain ⟨hgrows₂, howned⟩ := hgrows.complete hres.isSome (hgrows.valid.modifyFormula _ _) rfl
      (ties_completeFormula s.formulas.nextKey stored)
    obtain ⟨hgrows₃, hkeep⟩ := hgrows₂.node ho hres (by rw [howned])
    refine ⟨s.formulas.nextKey, _, ?_, hgrows₃, hkeep⟩
    rw [storeFormula, storing_bind (reserveFormula_apply _ _)]
    exact storing_bind hrun _

theorem storeShape_grows (key : FormulaKey) :
    ∀ (shape : Shape Formula.Placed DefinitionSet.Placed) (s : Store), s.Valid →
      (s.ties (.formula key)).isSome →
      ∃ stored s', storeShape key shape s = (stored, s') ∧
        Grows s s' (.formula key) (owned stored)
  | .null => by
    intro s hs ho
    exact ⟨_, s, rfl, .refl hs ho⟩
  | .bool value => by
    intro s hs ho
    exact ⟨_, s, rfl, .refl hs ho⟩
  | .number value => by
    intro s hs ho
    exact ⟨_, s, rfl, .refl hs ho⟩
  | .text value => by
    intro s hs ho
    exact ⟨_, s, rfl, .refl hs ho⟩
  | .name name => by
    intro s hs ho
    exact ⟨_, s, rfl, .refl hs ho⟩
  | .matrix value => by
    intro s hs ho
    exact ⟨_, s, rfl, .refl hs ho⟩
  | .call callee arguments => by
    intro s hs ho
    obtain ⟨k, s₁, hrun₁, hgrows₁, -⟩ := storeFormula_grows (.formula key) callee s hs ho
    obtain ⟨ks, s₂, hrun₂, hgrows₂⟩ :=
      storeFormulas_grows (.formula key) arguments s₁ hgrows₁.valid hgrows₁.isSome
    refine ⟨.call k ks, s₂, ?_, hgrows₁.append hgrows₂ ho⟩
    rw [storeShape, storing_bind hrun₁, storing_bind hrun₂]
    rfl
  | .list items => by
    intro s hs ho
    obtain ⟨ks, s₁, hrun, hgrows⟩ := storeFormulas_grows (.formula key) items s hs ho
    refine ⟨.list ks, s₁, ?_, hgrows⟩
    rw [storeShape, storing_bind hrun]
    rfl
  | .closure parameters body => by
    intro s hs ho
    have hres := reserveSet_reserves hs key
    -- the set is there before its definitions are, and then lists those that were added
    obtain ⟨s₁, ks, hrun, hgrows, hperm⟩ :=
      storeSet_grows s.sets.nextKey body _ hres.valid hres.isSome
    rw [hres.owned_eq] at hperm
    obtain ⟨hgrows₂, -⟩ := hgrows.node ho hres hperm
    refine ⟨.closure parameters s.sets.nextKey, s₁, ?_, hgrows₂⟩
    rw [storeShape, storing_bind (reserveSet_apply _)]
    exact storing_bind hrun _
  | .switch cases => by
    intro s hs ho
    obtain ⟨ks, s₁, hrun, hgrows⟩ := storeCases_grows (.formula key) cases s hs ho
    refine ⟨.switch ks, s₁, ?_, hgrows⟩
    rw [storeShape, storing_bind hrun]
    rfl

theorem storeFormulas_grows (owner : NodeKey) :
    ∀ (fs : List Formula.Placed) (s : Store), s.Valid → (s.ties owner).isSome →
      ∃ ks s', storeFormulas owner fs s = (ks, s') ∧ Grows s s' owner (ks.map .formula)
  | [] => by
    intro s hs ho
    exact ⟨[], s, rfl, .refl hs ho⟩
  | f :: fs => by
    intro s hs ho
    obtain ⟨k, s₁, hrun₁, hgrows₁, -⟩ := storeFormula_grows owner f s hs ho
    obtain ⟨ks, s₂, hrun₂, hgrows₂⟩ := storeFormulas_grows owner fs s₁ hgrows₁.valid hgrows₁.isSome
    refine ⟨k :: ks, s₂, ?_, hgrows₁.append hgrows₂ ho⟩
    rw [storeFormulas, storing_bind hrun₁, storing_bind hrun₂]
    rfl

theorem storeCases_grows (owner : NodeKey) :
    ∀ (cs : List (Case Formula.Placed)) (s : Store), s.Valid → (s.ties owner).isSome →
      ∃ cs' s', storeCases owner cs s = (cs', s') ∧
        Grows s s' owner ((cs'.flatMap Case.parts).map .formula)
  | [] => by
    intro s hs ho
    exact ⟨[], s, rfl, .refl hs ho⟩
  | .when condition value :: cs => by
    intro s hs ho
    obtain ⟨k, s₁, hrun₁, hgrows₁, -⟩ := storeFormula_grows owner condition s hs ho
    obtain ⟨l, s₂, hrun₂, hgrows₂, -⟩ :=
      storeFormula_grows owner value s₁ hgrows₁.valid hgrows₁.isSome
    obtain ⟨cs', s₃, hrun₃, hgrows₃⟩ := storeCases_grows owner cs s₂ hgrows₂.valid hgrows₂.isSome
    refine ⟨.when k l :: cs', s₃, ?_, (hgrows₁.append hgrows₂ ho).append hgrows₃ ho⟩
    rw [storeCases, storing_bind hrun₁, storing_bind hrun₂, storing_bind hrun₃]
    rfl
  | .otherwise value :: cs => by
    intro s hs ho
    obtain ⟨l, s₁, hrun₁, hgrows₁, -⟩ := storeFormula_grows owner value s hs ho
    obtain ⟨cs', s₂, hrun₂, hgrows₂⟩ := storeCases_grows owner cs s₁ hgrows₁.valid hgrows₁.isSome
    refine ⟨.otherwise l :: cs', s₂, ?_, hgrows₁.append hgrows₂ ho⟩
    rw [storeCases, storing_bind hrun₁, storing_bind hrun₂]
    rfl

theorem storeSet_grows (set : SetKey) :
    ∀ (d : DefinitionSet.Placed) (s : Store), s.Valid → (s.ties (.set set)).isSome →
      ∃ s' ks, storeSet set d s = ((), s') ∧ Grows s s' (.set set) ks ∧
        (s'.ties.owned (.set set)).Perm (s.ties.owned (.set set) ++ ks)
  | .node note definitions floating => by
    intro s hs ho
    obtain ⟨s₁, ks, hrun₁, hgrows₁, hperm₁⟩ := storeDefinitions_grows set definitions s hs ho
    obtain ⟨s₂, ls, hrun₂, hgrows₂, hperm₂⟩ :=
      storeFloating_grows set floating s₁ hgrows₁.valid hgrows₁.isSome
    refine ⟨s₂, ks ++ ls, ?_, hgrows₁.append hgrows₂ ho, ?_⟩
    · rw [storeSet, storing_bind hrun₁]
      exact hrun₂
    · refine hperm₂.trans ((hperm₁.append_right ls).trans ?_)
      rw [List.append_assoc]

theorem storeDefinitions_grows (set : SetKey) :
    ∀ (ds : List Definition.Placed) (s : Store), s.Valid → (s.ties (.set set)).isSome →
      ∃ s' ks, storeDefinitions set ds s = ((), s') ∧ Grows s s' (.set set) ks ∧
        (s'.ties.owned (.set set)).Perm (s.ties.owned (.set set) ++ ks)
  | [] => by
    intro s hs ho
    exact ⟨s, [], rfl, .refl hs ho, by simp⟩
  | .node span name none :: ds => by
    intro s hs ho
    have hres := reserveDefinition_reserves hs span name set
    obtain ⟨hgrows₁, hkeep⟩ :=
      (Grows.refl hres.valid hres.isSome).node ho hres (by rw [hres.owned_eq])
    have hlists := appendDefinition_lists hgrows₁.valid hgrows₁.isSome s.definitions.nextKey
    obtain ⟨hgrows₂, hperm₂⟩ := hgrows₁.lists hkeep hlists ho
    obtain ⟨s₃, ks, hrun₃, hgrows₃, hperm₃⟩ :=
      storeDefinitions_grows set ds _ hgrows₂.valid hgrows₂.isSome
    refine ⟨s₃, _, ?_, hgrows₂.append hgrows₃ ho, Grows.perm hperm₂ hperm₃⟩
    rw [storeDefinitions, storing_bind (reserveDefinition_apply _ _ _)]
    exact hrun₃
  | .node span name (some value) :: ds => by
    intro s hs ho
    have hres := reserveDefinition_reserves hs span name set
    obtain ⟨k, s₁, hrun₁, hvalue, -⟩ :=
      storeFormula_grows (.definition s.definitions.nextKey) value _ hres.valid hres.isSome
    -- the value is entered once it has been stored
    obtain ⟨hvalue', howned⟩ := hvalue.complete hres.isSome
      (hvalue.valid.modifyDefinition _ _) rfl (ties_completeDefinition s.definitions.nextKey k)
    obtain ⟨hgrows₁, hkeep⟩ := hvalue'.node ho hres (by rw [howned])
    have hlists := appendDefinition_lists hgrows₁.valid hgrows₁.isSome s.definitions.nextKey
    obtain ⟨hgrows₂, hperm₂⟩ := hgrows₁.lists hkeep hlists ho
    obtain ⟨s₃, ks, hrun₃, hgrows₃, hperm₃⟩ :=
      storeDefinitions_grows set ds _ hgrows₂.valid hgrows₂.isSome
    refine ⟨s₃, _, ?_, hgrows₂.append hgrows₃ ho, Grows.perm hperm₂ hperm₃⟩
    rw [storeDefinitions, storing_bind (reserveDefinition_apply _ _ _), storing_bind hrun₁]
    exact hrun₃

theorem storeFloating_grows (set : SetKey) :
    ∀ (fs : List Formula.Placed) (s : Store), s.Valid → (s.ties (.set set)).isSome →
      ∃ s' ks, storeFloating set fs s = ((), s') ∧ Grows s s' (.set set) ks ∧
        (s'.ties.owned (.set set)).Perm (s.ties.owned (.set set) ++ ks)
  | [] => by
    intro s hs ho
    exact ⟨s, [], rfl, .refl hs ho, by simp⟩
  | f :: fs => by
    intro s hs ho
    obtain ⟨k, s₁, hrun₁, hgrows₁, hkeep⟩ := storeFormula_grows (.set set) f s hs ho
    have hlists := appendFloating_lists hgrows₁.valid hgrows₁.isSome k
    obtain ⟨hgrows₂, hperm₂⟩ := hgrows₁.lists hkeep hlists ho
    obtain ⟨s₃, ks, hrun₃, hgrows₃, hperm₃⟩ :=
      storeFloating_grows set fs _ hgrows₂.valid hgrows₂.isSome
    refine ⟨s₃, .formula k :: ks, ?_, hgrows₂.append hgrows₃ ho, Grows.perm hperm₂ hperm₃⟩
    rw [storeFloating, storing_bind hrun₁]
    exact hrun₃

end

/-! ## Where programs begin -/

lemma ties_empty (n : NodeKey) :
    empty.ties n = if n = .set empty.root then some ⟨none, []⟩ else none := by
  have h : empty.ties = Ties.write (ties { empty with sets := noSets }) (.set empty.root)
      (some SetNode.empty.tie) :=
    ties_insertSet (s := { empty with sets := noSets }) Slots.valid_empty SetNode.empty
  rw [h, Ties.write_apply]
  split
  · rfl
  · cases n <;> simp [ties, empty, noSets]

/-- The program without definitions is in order. -/
lemma sound_empty : empty.Sound where
  valid := ⟨Slots.valid_empty, Slots.valid_empty, Slots.valid_empty.insert _⟩
  consistent := by
    have howner : ∀ n, empty.ties.owner n = none := by
      intro n
      rw [Ties.owner, ties_empty]
      split <;> rfl
    have howned : ∀ n, empty.ties.owned n = [] := by
      intro n
      rw [Ties.owned, ties_empty]
      split <;> rfl
    refine ⟨by simp [howner, howned], by simp [howned], ?_, howner _⟩
    rw [ties_empty, if_pos rfl]
    rfl

/-- A program that was stored hangs below the root. -/
lemma ofProgram_grows (program : DefinitionSet.Placed) :
    ∃ ks, Grows empty (ofProgram program) (.set empty.root) ks ∧
      ((ofProgram program).ties.owned (.set empty.root)).Perm
        (empty.ties.owned (.set empty.root) ++ ks) := by
  obtain ⟨s', ks, hrun, hgrows, hperm⟩ :=
    storeSet_grows empty.root program empty sound_empty.valid sound_empty.consistent.root_isSome
  unfold ofProgram
  rw [hrun]
  exact ⟨ks, hgrows, hperm⟩

/-- A program that was stored is in order. -/
theorem sound_ofProgram (program : DefinitionSet.Placed) : (ofProgram program).Sound := by
  obtain ⟨ks, hgrows, hperm⟩ := ofProgram_grows program
  refine ⟨hgrows.valid, ?_⟩
  rw [hgrows.root_eq]
  exact sound_empty.consistent.grow hgrows.grown hperm

end Formulary.Store
