/-
# Refused requests

A request is allowed if the nodes that it names exist, those that it is to put somewhere are
detached, and it takes no formula away from an owner that cannot do without it.  In a store in
order a request goes through exactly if it is allowed.  Otherwise it is refused before anything
was changed, so the store is the same afterwards, with the slots that the next nodes will take.
-/
import Formulary.Proofs.Store.Ownership

namespace Formulary.Store

variable {s : Store} {α β : Type}

/-! ## Edits that refuse nothing -/

/-- Whatever the store, the edit is not refused. -/
def Unrefusable (m : Edit α) : Prop := ∀ s reason s', m s ≠ .error (.refused reason) s'

lemma unrefusable_pure (a : α) : Unrefusable (pure a : Edit α) := by
  intro s reason s' h
  rw [pure_apply] at h
  cases h

lemma Unrefusable.bind {m : Edit α} {f : α → Edit β} (h : Unrefusable m)
    (hf : ∀ a, Unrefusable (f a)) : Unrefusable (m >>= f) := by
  intro s reason s' hrun
  rw [bind_apply] at hrun
  cases hm : m s with
  | ok a s₁ =>
    rw [hm] at hrun
    exact hf a s₁ reason s' hrun
  | error fault s₁ =>
    rw [hm] at hrun
    cases hrun
    exact h s reason s' hm

lemma unrefusable_forM {f : α → Edit Unit} (h : ∀ a, Unrefusable (f a)) (as : List α) :
    Unrefusable (as.forM f) := by
  induction as with
  | nil => exact unrefusable_pure ()
  | cons a as ih => exact (h a).bind fun _ => ih

lemma unrefusable_changeFormula (key : FormulaKey) (f : FormulaNode → FormulaNode) :
    Unrefusable (changeFormula key f) := by
  intro s reason s' h
  unfold changeFormula at h
  rw [get_bind] at h
  split at h <;> cases h

lemma unrefusable_changeDefinition (key : DefinitionKey) (f : DefinitionNode → DefinitionNode) :
    Unrefusable (changeDefinition key f) := by
  intro s reason s' h
  unfold changeDefinition at h
  rw [get_bind] at h
  split at h <;> cases h

lemma unrefusable_changeSet (key : SetKey) (f : SetNode → SetNode) :
    Unrefusable (changeSet key f) := by
  intro s reason s' h
  unfold changeSet at h
  rw [get_bind] at h
  split at h <;> cases h

lemma unrefusable_setFormulaOwner (owner : Option NodeKey) (key : FormulaKey) :
    Unrefusable (setFormulaOwner key owner) := unrefusable_changeFormula key _

lemma unrefusable_setOwner (owner : FormulaKey) (n : NodeKey) : Unrefusable (setOwner owner n) := by
  cases n with
  | formula key => exact unrefusable_setFormulaOwner _ key
  | definition key => exact unrefusable_changeDefinition key _
  | set key => exact unrefusable_changeSet key _

lemma unrefusable_modifyGet (f : Store → α × Store) : Unrefusable (modifyGet f : Edit α) := by
  intro s reason s' h
  cases h

/-- An edit whose checks go through is not refused. -/
lemma Unrefusable.not_refuses {m : Edit α} (h : Unrefusable m) : ¬ Refuses m s := by
  rintro ⟨reason, hrun⟩
  exact h s reason s hrun

lemma Refuses.of_ok {m : Edit α} {a : α} {f : α → Edit β} (h : Refuses (m >>= f) s)
    (hm : m s = .ok a s) : Refuses (f a) s := by
  obtain ⟨reason, hrun⟩ := h
  exact ⟨reason, (bind_of_ok hm).symm.trans hrun⟩

/-! ## Requests that are allowed -/

/-- An owner with this first layer cannot do without the formula: it is what is called, or the
value of a case. -/
def Needs : StoredShape → FormulaKey → Prop
  | .call callee _, f => callee = f
  | .switch cases, f => ∃ c ∈ cases, c.value = f
  | _, _ => False

/-- The formula is owned by a formula that cannot do without it. -/
def Required (s : Store) (f : FormulaKey) : Prop :=
  ∃ node key owner, s.formulas.get? f = some node ∧ node.owner = some (.formula key) ∧
    s.formulas.get? key = some owner ∧ Needs owner.shape f

/-- The nodes that the request names exist, and it can move them as it says. -/
def Request.Allowed (s : Store) : Request → Prop
  | addFormula shape => (owned shape).Nodup ∧ ∀ n ∈ owned shape, Detached s n
  | addSet => True
  | addDefinition set _ value =>
    (s.ties (.set set)).isSome ∧ ∀ v ∈ value, Detached s (.formula v)
  | renameDefinition d _ => (s.ties (.definition d)).isSome
  | setValue d value =>
    (s.ties (.definition d)).isSome ∧ ∀ v ∈ value, Detached s (.formula v)
  | addFloating set f => (s.ties (.set set)).isSome ∧ Detached s (.formula f)
  | detachFormula f into =>
    (s.ties (.set into)).isSome ∧ (s.ties (.formula f)).isSome ∧ ¬ Required s f
  | removeFormula f => (s.ties (.formula f)).isSome ∧ ¬ Required s f
  | removeDefinition d => (s.ties (.definition d)).isSome

/-- An owner can be left without a formula exactly if it does not need it. -/
lemma without?_eq_none_iff {f : FormulaKey} {shape : StoredShape} :
    without? f shape = none ↔ Needs shape f := by
  cases shape with
  | call callee arguments => simp [without?, Needs]
  | switch cases => simp [without?, Needs]
  | _ => simp [without?, Needs]

/-- A formula is taken away from its owner exactly if the owner does not need it. -/
lemma refuses_unlink_iff {f : FormulaKey} (hf : (s.ties (.formula f)).isSome) :
    Refuses (unlink f) s ↔ Required s f := by
  obtain ⟨node, hnode⟩ := isSome_ties_formula.mp hf
  have hrun₀ : formulaNode f s = .ok node s := by
    unfold formulaNode
    rw [get_bind]
    simp only [hnode]
    rfl
  have hset := unrefusable_setFormulaOwner none f
  unfold Store.unlink
  constructor
  · intro h
    replace h := h.of_ok hrun₀
    cases howner : node.owner with
    | none =>
      rw [howner] at h
      exact absurd h hset.not_refuses
    | some o =>
      rw [howner] at h
      cases o with
      | definition key => exact absurd h ((unrefusable_modifyGet _).bind fun _ => hset).not_refuses
      | set key => exact absurd h ((unrefusable_modifyGet _).bind fun _ => hset).not_refuses
      | formula key =>
        replace h := h.of_ok (show (get : Edit Store) s = .ok s s from rfl)
        -- only a formula can need another one
        cases hget : s.formulas.get? key with
        | none =>
          rw [hget] at h
          exact absurd h hset.not_refuses
        | some owner =>
          cases hwithout : without? f owner.shape with
          | none => exact ⟨node, key, owner, hnode, howner, hget, without?_eq_none_iff.mp hwithout⟩
          | some shape =>
            simp only [hget, hwithout] at h
            exact absurd h ((unrefusable_changeFormula key _).bind fun _ => hset).not_refuses
  · rintro ⟨node', key, owner, hnode', howner, hget, hneeds⟩
    obtain rfl : node = node' := Option.some.inj (hnode.symm.trans hnode')
    refine .of_bind hrun₀ ?_
    simp only [howner]
    refine ⟨.requiredSlot f, ?_⟩
    rw [get_bind]
    simp only [hget, without?_eq_none_iff.mpr hneeds]
    rw [bind_apply, refuse_apply]

/-! ## Requests that go through -/

lemma Refuses.of_unrefusable {m : Edit α} {f : α → Edit β} (h : Refuses (m >>= f) s)
    (hf : ∀ a, Unrefusable (f a)) : Refuses m s := by
  obtain ⟨reason, hrun⟩ := h
  rw [bind_apply] at hrun
  cases hm : m s with
  | ok a s' =>
    rw [hm] at hrun
    exact absurd hrun (hf a s' reason s)
  | error fault s' =>
    rw [hm] at hrun
    cases hrun
    exact ⟨reason, hm⟩

lemma Refuses.of_drop {m : Edit α} (h : Refuses (do let _ ← m) s) : Refuses m s :=
  h.of_unrefusable fun _ => unrefusable_pure ()

lemma Succeeds.not_refuses {m : Edit α} {a : α} {t : Ties} (h : Succeeds m s a t) :
    ¬ Refuses m s := by
  obtain ⟨s', hok, -⟩ := h
  rintro ⟨reason, hrun⟩
  rw [hok] at hrun
  cases hrun

lemma forM_checkDetached_of_detached {ns : List NodeKey} (h : ∀ n ∈ ns, Detached s n) :
    ns.forM checkDetached s = .ok () s := by
  induction ns with
  | nil => rfl
  | cons n ns ih =>
    exact (bind_of_ok (checkDetached_of_detached (h n (by simp)))).trans
      (ih fun m hm => h m (by simp [hm]))

lemma checkDetachedValue_of_detached {value : Option FormulaKey}
    (h : ∀ v ∈ value, Detached s (.formula v)) : checkDetachedValue value s = .ok () s := by
  cases value with
  | none => rfl
  | some v => exact (bind_of_ok (checkDetached_of_detached (h v rfl))).trans rfl

lemma setNode_apply {set : SetKey} (h : (s.ties (.set set)).isSome) :
    ∃ node, setNode set s = .ok node s := by
  obtain ⟨node, hnode⟩ := isSome_ties_set.mp h
  refine ⟨node, ?_⟩
  unfold setNode
  rw [get_bind]
  simp only [hnode]
  rfl

lemma definitionNode_apply {d : DefinitionKey} (h : (s.ties (.definition d)).isSome) :
    ∃ node, definitionNode d s = .ok node s := by
  obtain ⟨node, hnode⟩ := isSome_ties_definition.mp h
  refine ⟨node, ?_⟩
  unfold definitionNode
  rw [get_bind]
  simp only [hnode]
  rfl

lemma unrefusable_setValueOwner (value : Option FormulaKey) (owner : Option NodeKey) :
    Unrefusable (value.toList.forM fun v => setFormulaOwner v owner) :=
  unrefusable_forM (unrefusable_setFormulaOwner owner) _

lemma not_refuses_addFormula {shape : StoredShape} (hnodup : (owned shape).Nodup)
    (hdet : ∀ n ∈ owned shape, Detached s n) : ¬ Refuses (addFormula shape) s := by
  intro h
  simp only [addFormula, (firstRepeated?_eq_none_iff _).mpr hnodup] at h
  refine ((unrefusable_modifyGet _).bind fun key => ?_).not_refuses
    (h.of_ok (forM_checkDetached_of_detached hdet))
  exact (unrefusable_forM (unrefusable_setOwner key) _).bind fun _ => unrefusable_pure key

lemma not_refuses_addDefinition {set : SetKey} {value : Option FormulaKey} (name : String)
    (hset : (s.ties (.set set)).isSome) (hdet : ∀ v ∈ value, Detached s (.formula v)) :
    ¬ Refuses (addDefinition set name value) s := by
  obtain ⟨node, hnode⟩ := setNode_apply hset
  intro h
  refine ((unrefusable_modifyGet _).bind fun key => ?_).not_refuses
    ((h.of_ok hnode).of_ok (checkDetachedValue_of_detached hdet))
  exact (unrefusable_setValueOwner value _).bind fun _ =>
    (unrefusable_changeSet set _).bind fun _ => unrefusable_pure key

lemma not_refuses_setValue {d : DefinitionKey} {value : Option FormulaKey}
    (hd : (s.ties (.definition d)).isSome) (hdet : ∀ v ∈ value, Detached s (.formula v)) :
    ¬ Refuses (setValue d value) s := by
  obtain ⟨node, hnode⟩ := definitionNode_apply hd
  intro h
  refine ((unrefusable_changeDefinition d _).bind fun _ => ?_).not_refuses
    ((h.of_ok hnode).of_ok (checkDetachedValue_of_detached hdet))
  exact (unrefusable_setValueOwner node.value none).bind fun _ =>
    (unrefusable_setValueOwner value _).bind fun _ => unrefusable_pure node.value

lemma not_refuses_addFloating {set : SetKey} {f : FormulaKey}
    (hset : (s.ties (.set set)).isSome) (hf : Detached s (.formula f)) :
    ¬ Refuses (addFloating set f) s := by
  obtain ⟨node, hnode⟩ := setNode_apply hset
  intro h
  refine ((unrefusable_changeSet set _).bind fun _ => ?_).not_refuses
    ((h.of_ok hnode).of_ok (checkDetached_of_detached hf))
  exact unrefusable_setFormulaOwner _ f

/-- A formula is moved unless it cannot be taken away: once it is, it is detached, and the set
that it goes to still exists. -/
lemma not_refuses_detachFormula (hs : s.Sound) {f : FormulaKey} {into : SetKey}
    (hinto : (s.ties (.set into)).isSome) (hf : (s.ties (.formula f)).isSome)
    (hfree : ¬ Required s f) : ¬ Refuses (detachFormula f into) s := by
  obtain ⟨node, hnode⟩ := setNode_apply hinto
  rcases unlink_cases hs f with hr | ⟨-, s₁, hrun₁, hvalid₁, -, hties₁⟩
  · exact absurd ((refuses_unlink_iff hf).mp hr) hfree
  have hdet : Detached s₁ (.formula f) := by
    refine ⟨?_, ?_, by simp⟩
    · rwa [hties₁, Ties.isSome_unlink]
    · rw [hties₁, Ties.owner_unlink, if_pos rfl]
  have hinto₁ : (s₁.ties (.set into)).isSome := by rwa [hties₁, Ties.isSome_unlink]
  obtain ⟨-, -, s₂, hrun₂, -⟩ := addFloating_succeeds hvalid₁ hinto₁ hdet
  rintro ⟨reason, hrun⟩
  rw [detachFormula, bind_of_ok hnode, bind_of_ok hrun₁, hrun₂] at hrun
  cases hrun

lemma not_refuses_removeFormula {f : FormulaKey} (hf : (s.ties (.formula f)).isSome)
    (hfree : ¬ Required s f) : ¬ Refuses (removeFormula f) s := fun h =>
  hfree ((refuses_unlink_iff hf).mp (h.of_unrefusable fun _ => unrefusable_modifyGet _))

lemma not_refuses_removeDefinition {d : DefinitionKey} (hd : (s.ties (.definition d)).isSome) :
    ¬ Refuses (removeDefinition d) s := by
  obtain ⟨node, hnode⟩ := definitionNode_apply hd
  intro h
  refine ((unrefusable_forM (fun _ => ?_) _).bind fun _ => ?_).not_refuses (h.of_ok hnode)
  · exact unrefusable_modifyGet _
  · exact unrefusable_modifyGet _

/-- A request that is allowed is not refused. -/
lemma Request.Allowed.not_refuses (hs : s.Sound) {r : Request} (h : r.Allowed s) :
    ¬ Refuses r.edit s := by
  cases r with
  | addFormula shape => exact fun hr => not_refuses_addFormula h.1 h.2 hr.of_drop
  | addSet => exact fun hr => (unrefusable_modifyGet _).not_refuses hr.of_drop
  | addDefinition set name value =>
    exact fun hr => not_refuses_addDefinition name h.1 h.2 hr.of_drop
  | renameDefinition d name =>
    obtain ⟨node, hnode⟩ := definitionNode_apply h
    exact fun hr => (unrefusable_changeDefinition d _).not_refuses (hr.of_ok hnode)
  | setValue d value => exact fun hr => not_refuses_setValue h.1 h.2 hr.of_drop
  | addFloating set f => exact not_refuses_addFloating h.1 h.2
  | detachFormula f into => exact not_refuses_detachFormula hs h.1 h.2.1 h.2.2
  | removeFormula f => exact not_refuses_removeFormula h.1 h.2
  | removeDefinition d => exact not_refuses_removeDefinition h

/-- A request that goes through was allowed. -/
lemma Effect.allowed {r : Request} {t : Ties} (h : Effect s r t) (hr : ¬ Refuses r.edit s) :
    r.Allowed s := by
  cases h with
  | addFormula hnodup hdet => exact ⟨hnodup, hdet⟩
  | addSet => trivial
  | addDefinition hset hdet _ => exact ⟨hset, hdet⟩
  | @renameDefinition d name =>
    rcases definitionNode_cases (s := s) d with hr' | ⟨node, hnode, -⟩
    · exact absurd (hr'.bind _) hr
    · exact isSome_ties_definition.mpr ⟨node, hnode⟩
  | setValue hnode hdet => exact ⟨isSome_ties_definition.mpr ⟨_, hnode⟩, hdet⟩
  | addFloating hset hf _ => exact ⟨hset, hf⟩
  | detachFormula hf hinto _ =>
    obtain ⟨node, hnode⟩ := setNode_apply hinto
    exact ⟨hinto, hf, fun hreq => hr (.of_bind hnode (((refuses_unlink_iff hf).mpr hreq).bind _))⟩
  | removeFormula hf =>
    exact ⟨hf, fun hreq => hr (((refuses_unlink_iff hf).mpr hreq).bind _)⟩
  | removeDefinition hd => exact hd

/-- In every store that is reached, a request goes through exactly if it is allowed.  Otherwise
it is refused, and all of the store is as it was: the nodes, their order and owners, the root,
and the keys that the next nodes will have.  No request runs into an invalid key. -/
theorem Reachable.goes_through_or_unchanged (h : s.Reachable) (r : Request) :
    (r.Allowed s ∧ ∃ s', r.edit s = .ok () s') ∨
      (¬ r.Allowed s ∧ ∃ reason, r.edit s = .error (.refused reason) s) := by
  rcases r.refuses_or_effect h.sound with hr | ⟨t, heffect, hrun⟩
  · exact .inr ⟨fun hallowed => hallowed.not_refuses h.sound hr, hr⟩
  · refine .inl ⟨heffect.allowed hrun.not_refuses, ?_⟩
    obtain ⟨s', hok, -⟩ := hrun
    exact ⟨s', hok⟩

/-- What is called cannot be removed: the request is refused after both nodes were looked at. -/
theorem called_formula_not_removed :
    let s := (Request.addFormula (.call ⟨1, 1⟩ [])).after
      ((Request.addFormula (.name "f")).after empty)
    s.Reachable ∧ ¬ (Request.removeFormula ⟨1, 1⟩).Allowed s ∧
      ∃ reason, (Request.removeFormula ⟨1, 1⟩).edit s = .error (.refused reason) s := by
  intro s
  have hs : s.Reachable := .after (.after .empty _) _
  refine ⟨hs, ?_⟩
  rcases hs.goes_through_or_unchanged (.removeFormula ⟨1, 1⟩) with ⟨hallowed, -⟩ | hrefused
  · have hrequired : Required s ⟨1, 1⟩ :=
      ⟨⟨.name "f", some (.formula ⟨2, 1⟩), none⟩, ⟨2, 1⟩, ⟨.call ⟨1, 1⟩ [], none, none⟩,
        rfl, rfl, rfl, rfl⟩
    exact absurd hrequired hallowed.2
  · exact hrefused

end Formulary.Store
