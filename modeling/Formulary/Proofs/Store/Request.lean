/-
# Requests

A request asks for one edit, with whatever keys.  The effect of a request is what the edit does
to the ties of the store if it is not refused.  Every request either is refused, and then the
store stays as it was, or has its effect; and a store in order is in order afterwards.
-/
import Formulary.Proofs.Store.Effects

namespace Formulary.Store

/-- What can be asked of a store. -/
inductive Request where
  | addFormula (shape : StoredShape)
  | addSet
  | addDefinition (set : SetKey) (name : String) (value : Option FormulaKey)
  | renameDefinition (definition : DefinitionKey) (name : String)
  | setValue (definition : DefinitionKey) (value : Option FormulaKey)
  | addFloating (set : SetKey) (formula : FormulaKey)
  | detachFormula (formula : FormulaKey) (into : SetKey)
  | removeFormula (formula : FormulaKey)
  | removeDefinition (definition : DefinitionKey)

namespace Request

/-- The edit that a request asks for; its result is dropped. -/
def edit : Request → Edit Unit
  | addFormula shape => do let _ ← Store.addFormula shape
  | addSet => do let _ ← Store.addSet
  | addDefinition set name value => do let _ ← Store.addDefinition set name value
  | renameDefinition definition name => Store.renameDefinition definition name
  | setValue definition value => do let _ ← Store.setValue definition value
  | addFloating set formula => Store.addFloating set formula
  | detachFormula formula into => Store.detachFormula formula into
  | removeFormula formula => Store.removeFormula formula
  | removeDefinition definition => Store.removeDefinition definition

/-- The store after a request, whether it went through or not. -/
def after (r : Request) (s : Store) : Store :=
  match r.edit s with
  | .ok _ s' => s'
  | .error _ s' => s'

end Request

/-- What a request does to the ties of a store if it goes through. -/
inductive Effect (s : Store) : Request → Ties → Prop
  | addFormula {shape : StoredShape} (hnodup : (owned shape).Nodup)
      (hdet : ∀ n ∈ owned shape, Detached s n) :
      Effect s (.addFormula shape) (s.ties.adopt (.formula s.formulas.nextKey) (owned shape))
  | addSet : Effect s .addSet (s.ties.adopt (.set s.sets.nextKey) [])
  | addDefinition {set : SetKey} {name : String} {value : Option FormulaKey} {ns : List NodeKey}
      (hset : (s.ties (.set set)).isSome) (hdet : ∀ v ∈ value, Detached s (.formula v))
      (hperm : ns.Perm (.definition s.definitions.nextKey :: s.ties.owned (.set set))) :
      Effect s (.addDefinition set name value)
        (((s.ties.adopt (.definition s.definitions.nextKey) []).attach
            (.definition s.definitions.nextKey) (.set set) ns).attachValue
          s.definitions.nextKey value)
  | renameDefinition {d : DefinitionKey} {name : String} :
      Effect s (.renameDefinition d name) s.ties
  | setValue {d : DefinitionKey} {value : Option FormulaKey} {node : DefinitionNode}
      (hnode : s.definitions.get? d = some node) (hdet : ∀ v ∈ value, Detached s (.formula v)) :
      Effect s (.setValue d value) ((s.ties.detachValue d node.value).attachValue d value)
  | addFloating {set : SetKey} {f : FormulaKey} {ns : List NodeKey}
      (hset : (s.ties (.set set)).isSome) (hf : Detached s (.formula f))
      (hperm : ns.Perm (.formula f :: s.ties.owned (.set set))) :
      Effect s (.addFloating set f) (s.ties.attach (.formula f) (.set set) ns)
  | detachFormula {f : FormulaKey} {into : SetKey} {ns : List NodeKey}
      (hf : (s.ties (.formula f)).isSome) (hinto : (s.ties (.set into)).isSome)
      (hperm : ns.Perm (.formula f :: (s.ties.unlink (.formula f)).owned (.set into))) :
      Effect s (.detachFormula f into)
        ((s.ties.unlink (.formula f)).attach (.formula f) (.set into) ns)
  | removeFormula {f : FormulaKey} (hf : (s.ties (.formula f)).isSome) :
      Effect s (.removeFormula f) ((s.ties.unlink (.formula f)).withoutBelow (.formula f))
  | removeDefinition {d : DefinitionKey} (hd : (s.ties (.definition d)).isSome) :
      Effect s (.removeDefinition d)
        ((s.ties.unlink (.definition d)).withoutBelow (.definition d))

variable {s : Store}

lemma Succeeds.drop {α : Type} {m : Edit α} {a : α} {t : Ties} (h : Succeeds m s a t) :
    Succeeds (do let _ ← m) s () t := by
  obtain ⟨s', hrun, hrest⟩ := h
  exact ⟨s', (bind_of_ok hrun).trans rfl, hrest⟩

/-- Every request is refused or has its effect. -/
theorem Request.refuses_or_effect (hs : s.Sound) (r : Request) :
    Refuses r.edit s ∨ ∃ t, Effect s r t ∧ Succeeds r.edit s () t := by
  cases r with
  | addFormula shape =>
    rcases addFormula_cases hs.valid shape with hr | ⟨⟨hnodup, hdet⟩, hrun⟩
    · exact .inl (hr.bind _)
    · exact .inr ⟨_, .addFormula hnodup hdet, hrun.drop⟩
  | addSet => exact .inr ⟨_, .addSet, (addSet_succeeds hs.valid).drop⟩
  | addDefinition set name value =>
    rcases addDefinition_cases hs.valid set name value with hr | ⟨⟨hset, hdet⟩, ns, hperm, hrun⟩
    · exact .inl (hr.bind _)
    · exact .inr ⟨_, .addDefinition hset hdet hperm, hrun.drop⟩
  | renameDefinition d name =>
    rcases renameDefinition_cases hs.valid d name with hr | hrun
    · exact .inl hr
    · exact .inr ⟨_, .renameDefinition, hrun⟩
  | setValue d value =>
    rcases setValue_cases hs d value with hr | ⟨node, hnode, hdet, hrun⟩
    · exact .inl (hr.bind _)
    · exact .inr ⟨_, .setValue hnode hdet, hrun.drop⟩
  | addFloating set f =>
    rcases addFloating_cases hs.valid set f with hr | ⟨⟨hset, hf⟩, ns, hperm, hrun⟩
    · exact .inl hr
    · exact .inr ⟨_, .addFloating hset hf hperm, hrun⟩
  | detachFormula f into =>
    rcases detachFormula_cases hs f into with hr | ⟨⟨hf, hinto⟩, ns, hperm, hrun⟩
    · exact .inl hr
    · exact .inr ⟨_, .detachFormula hf hinto hperm, hrun⟩
  | removeFormula f =>
    rcases removeFormula_cases hs f with hr | ⟨hf, hrun⟩
    · exact .inl hr
    · exact .inr ⟨_, .removeFormula hf, hrun⟩
  | removeDefinition d =>
    rcases removeDefinition_cases hs d with hr | ⟨hd, hrun⟩
    · exact .inl hr
    · exact .inr ⟨_, .removeDefinition hd, hrun⟩

/-! ## Consistency -/

variable {t : Ties} {root : NodeKey}

lemma Ties.Consistent.attachValue (h : t.Consistent root) {d : DefinitionKey}
    {value : Option FormulaKey} (hd : (t (.definition d)).isSome)
    (howned : t.owned (.definition d) = [])
    (hroot : ∀ v, root ≠ .formula v)
    (hvalue : ∀ v ∈ value, (t (.formula v)).isSome ∧ t.owner (.formula v) = none) :
    (t.attachValue d value).Consistent root := by
  cases value with
  | none => exact h
  | some v =>
    have hv := hvalue v rfl
    exact h.attach hv.1 hv.2 (hroot v).symm hd (by rw [howned])

/-- The value of a definition refers back to it. -/
lemma Sound.owner_value (hs : s.Sound) {d : DefinitionKey} {node : DefinitionNode}
    (hnode : s.definitions.get? d = some node) {v : FormulaKey} (hv : node.value = some v) :
    s.ties.owner (.formula v) = some (.definition d) := by
  rw [← hs.consistent.mem_owned_iff, owned_definition hnode, DefinitionNode.owned, hv]
  simp

/-- Taking away the value of a definition leaves it without one. -/
lemma Sound.detachValue (hs : s.Sound) {d : DefinitionKey} {node : DefinitionNode}
    (hnode : s.definitions.get? d = some node) :
    (s.ties.detachValue d node.value).Consistent (.set s.root) ∧
      (s.ties.detachValue d node.value).owned (.definition d) = [] ∧
      ∀ n, (s.ties.detachValue d node.value n).isSome = (s.ties n).isSome := by
  have howned := owned_definition hnode
  rw [DefinitionNode.owned] at howned
  cases hval : node.value with
  | none =>
    rw [hval] at howned
    exact ⟨hs.consistent, howned, fun n => rfl⟩
  | some v =>
    rw [hval] at howned
    have howner := hs.owner_value hnode hval
    have hd : (s.ties (.definition d)).isSome := by simp [ties_definition hnode]
    refine ⟨hs.consistent.detach howner, ?_, ?_⟩
    · rw [Ties.detachValue, Ties.owned_detach hd, if_pos rfl, howned]
      simp
    · intro n
      simp [Ties.detachValue, Ties.detach]

lemma Ties.owner_detachValue_of_none {d : DefinitionKey} {value : Option FormulaKey} {n : NodeKey}
    (hvalue : ∀ v ∈ value, (t (.formula v)).isSome) (hn : t.owner n = none) :
    (t.detachValue d value).owner n = none := by
  cases value with
  | none => exact hn
  | some v =>
    rw [Ties.detachValue, owner_detach (hvalue v rfl)]
    split
    · rfl
    · exact hn

/-- The effect of a request keeps both directions of ownership in step. -/
theorem Effect.consistent (hs : s.Sound) {r : Request} {t : Ties} (h : Effect s r t) :
    t.Consistent (.set s.root) := by
  have hroot : ∀ v : FormulaKey, NodeKey.set s.root ≠ .formula v := by simp
  cases h with
  | addFormula hnodup hdet =>
    have hfresh : s.ties (.formula s.formulas.nextKey) = none := by
      simp [ties, Slots.get?_nextKey]
    exact hs.consistent.adopt hfresh hnodup hdet
  | addSet =>
    have hfresh : s.ties (.set s.sets.nextKey) = none := by simp [ties, Slots.get?_nextKey]
    exact hs.consistent.adopt hfresh List.nodup_nil (by simp)
  | @addDefinition set name value ns hset hdet hperm =>
    have hfresh : s.ties (.definition s.definitions.nextKey) = none := by
      simp [ties, Slots.get?_nextKey]
    -- the definition is listed by its set first, and takes its value then
    have h₂ := hs.consistent.attach_adopt hfresh hset hperm
    refine h₂.attachValue (by simp [Ties.attach, Ties.adopt]) ?_ hroot ?_
    · rw [Ties.owned_attach (by simpa [Ties.adopt] using hset), if_neg (by simp),
        Ties.owned_adopt, if_pos rfl]
    · intro v hv
      refine ⟨by simpa [Ties.attach, Ties.adopt] using (hdet v hv).1, ?_⟩
      rw [Ties.owner_attach_adopt, if_neg (by simp)]
      exact (hdet v hv).2.1
  | renameDefinition => exact hs.consistent
  | @setValue d value node hnode hdet =>
    obtain ⟨h₁, howned, hlive⟩ := hs.detachValue hnode
    refine h₁.attachValue (by rw [hlive, ties_definition hnode]; rfl) howned hroot ?_
    intro v hv
    refine ⟨by rw [hlive]; exact (hdet v hv).1, ?_⟩
    exact Ties.owner_detachValue_of_none
      (fun w hw => Ties.isSome_of_owner (hs.owner_value hnode hw)) (hdet v hv).2.1
  | addFloating hset hf hperm => exact hs.consistent.attach hf.1 hf.2.1 hf.2.2 hset hperm
  | @detachFormula f into ns hf hinto hperm =>
    refine (hs.consistent.unlink _).attach ?_ ?_ (by simp) ?_ hperm
    · rwa [Ties.isSome_unlink]
    · rw [Ties.owner_unlink, if_pos rfl]
    · rwa [Ties.isSome_unlink]
  | removeFormula hf =>
    refine (hs.consistent.unlink _).withoutBelow ?_ (by simp)
    rw [Ties.owner_unlink, if_pos rfl]
  | removeDefinition hd =>
    refine (hs.consistent.unlink _).withoutBelow ?_ (by simp)
    rw [Ties.owner_unlink, if_pos rfl]

/-- A store in order is in order after every request. -/
theorem Sound.after (hs : s.Sound) (r : Request) : (r.after s).Sound := by
  unfold Request.after
  rcases r.refuses_or_effect hs with ⟨reason, hr⟩ | ⟨t, heffect, s', hrun, hvalid, hroot, hties⟩
  · rw [hr]
    exact hs
  · rw [hrun]
    refine ⟨hvalid, ?_⟩
    rw [hties, hroot]
    exact heffect.consistent hs

end Formulary.Store
