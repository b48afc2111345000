/-
# What edits do

An edit is refused and leaves the store as it was, or it goes through.  For every edit this file
says when it goes through and what the ties of the store are afterwards, as a sequence of the
steps on ties.  In a sound store no edit runs into an invalid key.
-/
import Formulary.Proofs.Data.Results
import Formulary.Proofs.Store.Primitives

namespace Formulary.Store

variable {s : Store}

/-- An edit is refused, and the store stays as it was. -/
def Refuses {α : Type} (m : Edit α) (s : Store) : Prop :=
  ∃ reason, m s = .error (.refused reason) s

/-- An edit gives `a` and leaves a store in order, with the same root and the ties `t`. -/
def Succeeds {α : Type} (m : Edit α) (s : Store) (a : α) (t : Ties) : Prop :=
  ∃ s' : Store, m s = .ok a s' ∧ s'.Valid ∧ s'.root = s.root ∧ s'.ties = t

/-- A node that can be given an owner. -/
def Detached (s : Store) (n : NodeKey) : Prop :=
  (s.ties n).isSome ∧ s.ties.owner n = none ∧ n ≠ .set s.root

/-! ## Running edits -/

lemma pure_apply {α : Type} (a : α) (s : Store) : (pure a : Edit α) s = .ok a s := rfl

lemma refuse_apply {α : Type} (reason : Refusal) (s : Store) :
    (refuse reason : Edit α) s = .error (.refused reason) s := rfl

lemma modify_apply (f : Store → Store) (s : Store) :
    (modify f : Edit Unit) s = .ok () (f s) := rfl

lemma Refuses.bind {α β : Type} {m : Edit α} (h : Refuses m s) (f : α → Edit β) :
    Refuses (m >>= f) s := by
  obtain ⟨reason, h⟩ := h
  exact ⟨reason, by rw [bind_apply, h]⟩

lemma Refuses.of_bind {α β : Type} {m : Edit α} {a : α} (hm : m s = .ok a s) {f : α → Edit β}
    (h : Refuses (f a) s) : Refuses (m >>= f) s := by
  obtain ⟨reason, h⟩ := h
  exact ⟨reason, by rw [bind_apply, hm]; exact h⟩

/-! ## Looking up and checking -/

lemma formulaNode_cases (key : FormulaKey) :
    Refuses (formulaNode key) s ∨
      ∃ node, s.formulas.get? key = some node ∧ formulaNode key s = .ok node s := by
  unfold Refuses formulaNode
  simp only [get_bind]
  cases s.formulas.get? key with
  | none => exact .inl ⟨_, rfl⟩
  | some node => exact .inr ⟨node, rfl, rfl⟩

lemma definitionNode_cases (key : DefinitionKey) :
    Refuses (definitionNode key) s ∨
      ∃ node, s.definitions.get? key = some node ∧ definitionNode key s = .ok node s := by
  unfold Refuses definitionNode
  simp only [get_bind]
  cases s.definitions.get? key with
  | none => exact .inl ⟨_, rfl⟩
  | some node => exact .inr ⟨node, rfl, rfl⟩

lemma setNode_cases (key : SetKey) :
    Refuses (setNode key) s ∨
      ∃ node, s.sets.get? key = some node ∧ setNode key s = .ok node s := by
  unfold Refuses setNode
  simp only [get_bind]
  cases s.sets.get? key with
  | none => exact .inl ⟨_, rfl⟩
  | some node => exact .inr ⟨node, rfl, rfl⟩

lemma checkDetached_of_detached {n : NodeKey} (h : Detached s n) :
    checkDetached n s = .ok () s := by
  obtain ⟨hsome, howner, hroot⟩ := h
  obtain ⟨tie, htie⟩ := Option.isSome_iff_exists.mp hsome
  have hnone : tie.owner = none := by simpa [Ties.owner, htie] using howner
  unfold checkDetached
  simp only [get_bind, owner?_eq, htie, Option.map_some]
  rw [if_neg (by simp [hnone, hroot])]
  rfl

lemma refuses_checkDetached {n : NodeKey} (h : ¬ Detached s n) : Refuses (checkDetached n) s := by
  unfold Refuses checkDetached
  simp only [get_bind, owner?_eq]
  cases htie : s.ties n with
  | none => exact ⟨_, rfl⟩
  | some tie =>
    have hown : tie.owner.isSome ∨ n = .set s.root := by
      by_contra hcon
      rw [not_or, Option.not_isSome_iff_eq_none] at hcon
      exact h ⟨by simp [htie], by simp [Ties.owner, htie, hcon.1], hcon.2⟩
    simp only [Option.map_some, if_pos hown]
    exact ⟨_, rfl⟩

lemma forM_checkDetached (ns : List NodeKey) :
    Refuses (ns.forM checkDetached) s ∨
      (∀ n ∈ ns, Detached s n) ∧ ns.forM checkDetached s = .ok () s := by
  induction ns with
  | nil => exact .inr ⟨by simp, rfl⟩
  | cons n ns ih =>
    by_cases h : Detached s n
    · have hn := checkDetached_of_detached h
      rcases ih with hr | ⟨hns, hok⟩
      · exact .inl (.of_bind hn hr)
      · exact .inr ⟨by simpa [h] using hns, (bind_of_ok hn).trans hok⟩
    · exact .inl ((refuses_checkDetached h).bind _)

/-! ## Changing nodes -/

lemma Valid.modifyFormula (h : s.Valid) (key : FormulaKey) (f : FormulaNode → FormulaNode) :
    Valid { s with formulas := s.formulas.modify key f } :=
  ⟨h.formulas.modify key f, h.definitions, h.sets⟩

lemma Valid.modifyDefinition (h : s.Valid) (key : DefinitionKey)
    (f : DefinitionNode → DefinitionNode) :
    Valid { s with definitions := s.definitions.modify key f } :=
  ⟨h.formulas, h.definitions.modify key f, h.sets⟩

lemma Valid.modifySet (h : s.Valid) (key : SetKey) (f : SetNode → SetNode) :
    Valid { s with sets := s.sets.modify key f } :=
  ⟨h.formulas, h.definitions, h.sets.modify key f⟩

lemma changeFormula_apply {key : FormulaKey} {node : FormulaNode}
    (h : s.formulas.get? key = some node) (f : FormulaNode → FormulaNode) :
    changeFormula key f s = .ok () { s with formulas := s.formulas.modify key f } := by
  unfold changeFormula
  simp only [get_bind, h, Option.isSome_some, if_true]
  rfl

lemma changeDefinition_apply {key : DefinitionKey} {node : DefinitionNode}
    (h : s.definitions.get? key = some node) (f : DefinitionNode → DefinitionNode) :
    changeDefinition key f s = .ok () { s with definitions := s.definitions.modify key f } := by
  unfold changeDefinition
  simp only [get_bind, h, Option.isSome_some, if_true]
  rfl

lemma changeSet_apply {key : SetKey} {node : SetNode} (h : s.sets.get? key = some node)
    (f : SetNode → SetNode) :
    changeSet key f s = .ok () { s with sets := s.sets.modify key f } := by
  unfold changeSet
  simp only [get_bind, h, Option.isSome_some, if_true]
  rfl

lemma isSome_ties_formula {key : FormulaKey} :
    (s.ties (.formula key)).isSome ↔ ∃ node, s.formulas.get? key = some node := by
  simp [ties, Option.isSome_iff_exists]

lemma isSome_ties_definition {key : DefinitionKey} :
    (s.ties (.definition key)).isSome ↔ ∃ node, s.definitions.get? key = some node := by
  simp [ties, Option.isSome_iff_exists]

lemma isSome_ties_set {key : SetKey} :
    (s.ties (.set key)).isSome ↔ ∃ node, s.sets.get? key = some node := by
  simp [ties, Option.isSome_iff_exists]

lemma setFormulaOwner_succeeds (hs : s.Valid) {key : FormulaKey}
    (h : (s.ties (.formula key)).isSome) (owner : Option NodeKey) :
    Succeeds (setFormulaOwner key owner) s () (s.ties.setOwner (.formula key) owner) := by
  obtain ⟨node, hnode⟩ := isSome_ties_formula.mp h
  refine ⟨_, changeFormula_apply hnode _, hs.modifyFormula key _, rfl, ?_⟩
  rw [ties_modifyFormula]
  simp [Ties.setOwner, ties, hnode, FormulaNode.tie]

/-- Making a formula the owner of a node that is a formula or a set. -/
lemma setOwner_succeeds (hs : s.Valid) {n : NodeKey} (h : (s.ties n).isSome)
    (hn : ∀ key, n ≠ .definition key) (owner : FormulaKey) :
    Succeeds (setOwner owner n) s () (s.ties.setOwner n (some (.formula owner))) := by
  cases n with
  | formula key => exact setFormulaOwner_succeeds hs h _
  | definition key => exact absurd rfl (hn key)
  | set key =>
    obtain ⟨node, hnode⟩ := isSome_ties_set.mp h
    refine ⟨_, changeSet_apply hnode _, hs.modifySet key _, rfl, ?_⟩
    rw [ties_modifySet]
    simp [Ties.setOwner, ties, hnode, SetNode.tie, SetNode.owned]

/-! ## Adding -/

lemma firstRepeated?_go_eq_none {α : Type} [DecidableEq α] (seen as : List α) :
    firstRepeated?.go seen as = none ↔ as.Nodup ∧ ∀ a ∈ as, a ∉ seen := by
  induction as generalizing seen with
  | nil => simp [firstRepeated?.go]
  | cons a as ih =>
    unfold firstRepeated?.go
    by_cases h : a ∈ seen
    · simp [h]
    · rw [if_neg h, ih, List.nodup_cons]
      constructor
      · rintro ⟨hnodup, hnot⟩
        refine ⟨⟨fun ha => hnot a ha (by simp), hnodup⟩, ?_⟩
        intro b hb
        rcases List.mem_cons.mp hb with rfl | hb
        · exact h
        · exact fun hseen => hnot b hb (by simp [hseen])
      · rintro ⟨⟨ha, hnodup⟩, hnot⟩
        refine ⟨hnodup, ?_⟩
        intro b hb hmem
        rcases List.mem_cons.mp hmem with rfl | hmem
        · exact ha hb
        · exact hnot b (by simp [hb]) hmem

lemma firstRepeated?_eq_none_iff {α : Type} [DecidableEq α] (as : List α) :
    firstRepeated? as = none ↔ as.Nodup := by
  simp [firstRepeated?, firstRepeated?_go_eq_none]

/-- No formula owns a definition directly. -/
lemma ne_definition_of_mem_owned {shape : StoredShape} {n : NodeKey} (h : n ∈ owned shape)
    (key : DefinitionKey) : n ≠ .definition key := by
  rintro rfl
  cases shape <;> simp [owned] at h

/-- Making a formula the owner of several nodes one after the other. -/
lemma forM_setOwner_succeeds (owner : FormulaKey) (ns : List NodeKey) {s : Store} (hs : s.Valid)
    (h : ∀ n ∈ ns, (s.ties n).isSome ∧ ∀ key, n ≠ .definition key) :
    Succeeds (ns.forM (setOwner owner)) s () fun m =>
      if m ∈ ns then (s.ties m).map fun tie => { tie with owner := some (.formula owner) }
      else s.ties m := by
  induction ns generalizing s with
  | nil => exact ⟨s, rfl, hs, rfl, by simp⟩
  | cons n ns ih =>
    have hn := h n (by simp)
    obtain ⟨s₁, hrun₁, hvalid₁, hroot₁, hties₁⟩ := setOwner_succeeds hs hn.1 hn.2 owner
    have hns : ∀ m ∈ ns, (s₁.ties m).isSome ∧ ∀ key, m ≠ .definition key := by
      intro m hm
      rw [hties₁, Ties.isSome_setOwner]
      exact h m (by simp [hm])
    obtain ⟨s₂, hrun₂, hvalid₂, hroot₂, hties₂⟩ := ih hvalid₁ hns
    refine ⟨s₂, (bind_of_ok hrun₁).trans hrun₂, hvalid₂, hroot₂.trans hroot₁, ?_⟩
    rw [hties₂, hties₁]
    funext m
    by_cases hmn : m = n
    · subst hmn
      cases htie : s.ties m <;> simp [Ties.setOwner, Ties.write_apply, htie]
    · by_cases hmem : m ∈ ns <;> simp [hmn, hmem, Ties.setOwner, Ties.write_apply]

/-- A new node whose parts are given to it one after the other has adopted them. -/
lemma Ties.adopt_of_write (t : Ties) (key : FormulaKey) {ns : List NodeKey}
    (h : .formula key ∉ ns) :
    (fun m =>
      if m ∈ ns then
        (t.write (.formula key) (some ⟨none, ns⟩) m).map fun tie =>
          { tie with owner := some (.formula key) }
      else t.write (.formula key) (some ⟨none, ns⟩) m) = t.adopt (.formula key) ns := by
  funext m
  by_cases hm : m = .formula key
  · simp [hm, Ties.adopt, Ties.write_apply, h]
  · simp [hm, Ties.adopt, Ties.write_apply]

lemma addFormula_cases (hs : s.Valid) (shape : StoredShape) :
    Refuses (addFormula shape) s ∨
      ((owned shape).Nodup ∧ ∀ n ∈ owned shape, Detached s n) ∧
        Succeeds (addFormula shape) s s.formulas.nextKey
          (s.ties.adopt (.formula s.formulas.nextKey) (owned shape)) := by
  cases hrep : firstRepeated? (owned shape) with
  | some n =>
    simp only [addFormula, hrep]
    exact .inl (Refuses.bind ⟨_, refuse_apply _ s⟩ _)
  | none =>
    simp only [addFormula, hrep]
    have hnodup := (firstRepeated?_eq_none_iff _).mp hrep
    rcases forM_checkDetached (s := s) (owned shape) with hr | ⟨hdet, hrun₀⟩
    · exact .inl (hr.bind _)
    · refine .inr ⟨⟨hnodup, hdet⟩, ?_⟩
      -- the new node has a key that no node had before
      have hfresh : s.ties (.formula s.formulas.nextKey) = none := by
        simp [ties, Slots.get?_nextKey]
      let s₁ : Store := { s with formulas := s.formulas.insert ⟨shape, none, none⟩ }
      have hrun₁ : insertFormula ⟨shape, none, none⟩ s = .ok s.formulas.nextKey s₁ := rfl
      have hvalid₁ : s₁.Valid := ⟨hs.formulas.insert _, hs.definitions, hs.sets⟩
      have hties₁ : s₁.ties =
          s.ties.write (.formula s.formulas.nextKey) (some ⟨none, owned shape⟩) :=
        ties_insertFormula hs.formulas _
      have hmem : NodeKey.formula s.formulas.nextKey ∉ owned shape := by
        intro hn
        simpa [hfresh] using (hdet _ hn).1
      have hlive : ∀ n ∈ owned shape, (s₁.ties n).isSome ∧ ∀ key, n ≠ .definition key := by
        intro n hn
        rw [hties₁, Ties.write_apply, if_neg (ne_of_mem_of_not_mem hn hmem)]
        exact ⟨(hdet n hn).1, ne_definition_of_mem_owned hn⟩
      obtain ⟨s₂, hrun₂, hvalid₂, hroot₂, hties₂⟩ :=
        forM_setOwner_succeeds s.formulas.nextKey (owned shape) hvalid₁ hlive
      refine ⟨s₂, ?_, hvalid₂, hroot₂, ?_⟩
      · rw [bind_of_ok hrun₀, bind_of_ok hrun₁, bind_of_ok hrun₂, pure_apply]
      · rw [hties₂, hties₁]
        exact Ties.adopt_of_write s.ties _ hmem

lemma addSet_succeeds (hs : s.Valid) :
    Succeeds addSet s s.sets.nextKey (s.ties.adopt (.set s.sets.nextKey) []) := by
  refine ⟨{ s with sets := s.sets.insert SetNode.empty }, rfl,
    ⟨hs.formulas, hs.definitions, hs.sets.insert _⟩, rfl, ?_⟩
  rw [ties_insertSet hs.sets]
  funext m
  simp [Ties.write_apply, Ties.adopt, SetNode.tie, SetNode.empty, SetNode.owned]

lemma checkDetachedValue_cases (value : Option FormulaKey) :
    Refuses (checkDetachedValue value) s ∨
      (∀ v ∈ value, Detached s (.formula v)) ∧ checkDetachedValue value s = .ok () s := by
  cases value with
  | none => exact .inr ⟨by simp, rfl⟩
  | some v =>
    by_cases h : Detached s (.formula v)
    · exact .inr ⟨by simpa using h, (bind_of_ok (checkDetached_of_detached h)).trans rfl⟩
    · exact .inl ((refuses_checkDetached h).bind _)

/-- The ties after a definition that had no value was given one, or none. -/
def Ties.attachValue (t : Ties) (d : DefinitionKey) : Option FormulaKey → Ties
  | none => t
  | some v => t.attach (.formula v) (.definition d) [.formula v]

/-- The ties after a formula, if there is one, was given an owner, or none. -/
def Ties.setValueOwner (t : Ties) (owner : Option NodeKey) : Option FormulaKey → Ties
  | none => t
  | some v => t.setOwner (.formula v) owner

lemma forM_setFormulaOwner_succeeds (hs : s.Valid) (value : Option FormulaKey)
    (h : ∀ v ∈ value, (s.ties (.formula v)).isSome) (owner : Option NodeKey) :
    Succeeds (value.toList.forM fun v => setFormulaOwner v owner) s ()
      (s.ties.setValueOwner owner value) := by
  cases value with
  | none => exact ⟨s, rfl, hs, rfl, rfl⟩
  | some v =>
    obtain ⟨s₁, hrun, hvalid, hroot, hties⟩ := setFormulaOwner_succeeds hs (h v rfl) owner
    exact ⟨s₁, (bind_of_ok hrun).trans rfl, hvalid, hroot, hties⟩

/-- A definition is put at the end of those of a set. -/
lemma changeSet_definition (hs : s.Valid) {set : SetKey} (h : (s.ties (.set set)).isSome)
    (d : DefinitionKey) :
    ∃ ns, ns.Perm (.definition d :: s.ties.owned (.set set)) ∧
      Succeeds (changeSet set fun node => { node with definitions := node.definitions ++ [d] })
        s () (s.ties.setOwned (.set set) ns) := by
  obtain ⟨node, hnode⟩ := isSome_ties_set.mp h
  refine ⟨SetNode.owned { node with definitions := node.definitions ++ [d] }, ?_, ?_⟩
  · rw [owned_set hnode]
    simp only [SetNode.owned, List.map_append, List.map_cons, List.map_nil, List.append_assoc,
      List.singleton_append]
    exact List.perm_middle
  · refine ⟨_, changeSet_apply hnode _, hs.modifySet set _, rfl, ?_⟩
    rw [ties_modifySet]
    simp [Ties.setOwned, ties_set hnode, hnode, SetNode.tie]

/-- A formula is put at the end of those of a set that have no name. -/
lemma changeSet_floating (hs : s.Valid) {set : SetKey} (h : (s.ties (.set set)).isSome)
    (f : FormulaKey) :
    ∃ ns, ns.Perm (.formula f :: s.ties.owned (.set set)) ∧
      Succeeds (changeSet set fun node => { node with floating := node.floating ++ [f] })
        s () (s.ties.setOwned (.set set) ns) := by
  obtain ⟨node, hnode⟩ := isSome_ties_set.mp h
  refine ⟨SetNode.owned { node with floating := node.floating ++ [f] }, ?_, ?_⟩
  · rw [owned_set hnode]
    simp only [SetNode.owned, List.map_append, List.map_cons, List.map_nil, ← List.append_assoc]
    exact List.perm_append_singleton _ _
  · refine ⟨_, changeSet_apply hnode _, hs.modifySet set _, rfl, ?_⟩
    rw [ties_modifySet]
    simp [Ties.setOwned, ties_set hnode, hnode, SetNode.tie]

/-- A definition that is stored with its owner and its value, given to the value and put on the row
of the set, is adopted, attached to the set and given its value. -/
lemma Ties.attachValue_adopt (t : Ties) (d : DefinitionKey) (set : SetKey) (ns : List NodeKey)
    (value : Option FormulaKey) :
    ((t.write (.definition d) (some ⟨some (.set set), value.toList.map .formula⟩)).setValueOwner
        (some (.definition d)) value).setOwned (.set set) ns =
      ((t.adopt (.definition d) []).attach (.definition d) (.set set) ns).attachValue d value := by
  funext m
  cases value with
  | none =>
    simp only [Ties.setValueOwner, Ties.attachValue, Ties.attach, Ties.adopt, Ties.setOwner,
      Ties.setOwned, Ties.write_apply]
    by_cases hd : m = .definition d
    · simp [hd]
    · by_cases hset : m = .set set <;> simp [hd, hset]
  | some v =>
    simp only [Ties.setValueOwner, Ties.attachValue, Ties.attach, Ties.adopt, Ties.setOwner,
      Ties.setOwned, Ties.write_apply]
    by_cases hd : m = .definition d
    · simp [hd]
    · by_cases hset : m = .set set
      · simp [hset]
      · by_cases hv : m = .formula v <;> simp [hd, hset, hv]

lemma addDefinition_cases (hs : s.Valid) (set : SetKey) (name : String)
    (value : Option FormulaKey) :
    Refuses (addDefinition set name value) s ∨
      ((s.ties (.set set)).isSome ∧ ∀ v ∈ value, Detached s (.formula v)) ∧
        ∃ ns, ns.Perm (.definition s.definitions.nextKey :: s.ties.owned (.set set)) ∧
          Succeeds (addDefinition set name value) s s.definitions.nextKey
            (((s.ties.adopt (.definition s.definitions.nextKey) []).attach
                (.definition s.definitions.nextKey) (.set set) ns).attachValue
              s.definitions.nextKey value) := by
  unfold addDefinition
  rcases setNode_cases (s := s) set with hr | ⟨node, hnode, hrun₀⟩
  · exact .inl (hr.bind _)
  rcases checkDetachedValue_cases (s := s) value with hr | ⟨hdet, hrun₁⟩
  · exact .inl (.of_bind hrun₀ (hr.bind _))
  refine .inr ⟨⟨by simp [ties_set hnode], hdet⟩, ?_⟩
  -- it is inserted first, then its value gets its owner, and its set lists it
  let d := s.definitions.nextKey
  let s₂ : Store := { s with definitions := s.definitions.insert ⟨name, value, some set, none⟩ }
  have hrun₂ : insertDefinition ⟨name, value, some set, none⟩ s = .ok d s₂ := rfl
  have hvalid₂ : s₂.Valid := ⟨hs.formulas, hs.definitions.insert _, hs.sets⟩
  have hties₂ : s₂.ties = s.ties.write (.definition d)
      (some ⟨some (.set set), value.toList.map .formula⟩) :=
    ties_insertDefinition hs.definitions _
  have hlive : ∀ v ∈ value, (s₂.ties (.formula v)).isSome := by
    intro v hv
    rw [hties₂, Ties.write_apply, if_neg (by simp)]
    exact (hdet v hv).1
  obtain ⟨s₃, hrun₃, hvalid₃, hroot₃, hties₃⟩ :=
    forM_setFormulaOwner_succeeds hvalid₂ value hlive (some (.definition d))
  have hset₃ : s₃.ties (.set set) = s.ties (.set set) := by
    rw [hties₃]
    cases value <;> simp [hties₂, Ties.setValueOwner, Ties.setOwner, Ties.write_apply]
  have hlive₃ : (s₃.ties (.set set)).isSome := by simp [hset₃, ties_set hnode]
  obtain ⟨ns, hperm, s₄, hrun₄, hvalid₄, hroot₄, hties₄⟩ :=
    changeSet_definition hvalid₃ hlive₃ d
  refine ⟨ns, by simpa only [Ties.owned, hset₃] using hperm, s₄, ?_, hvalid₄,
    hroot₄.trans hroot₃, ?_⟩
  · rw [bind_of_ok hrun₀, bind_of_ok hrun₁, bind_of_ok hrun₂, bind_of_ok hrun₃,
      bind_of_ok hrun₄, pure_apply]
  · rw [hties₄, hties₃, hties₂]
    exact Ties.attachValue_adopt s.ties d set ns value

/-- A detached formula can be added to a set without giving it a name. -/
lemma addFloating_succeeds (hs : s.Valid) {set : SetKey} {f : FormulaKey}
    (hset : (s.ties (.set set)).isSome) (hf : Detached s (.formula f)) :
    ∃ ns, ns.Perm (.formula f :: s.ties.owned (.set set)) ∧
      Succeeds (addFloating set f) s () (s.ties.attach (.formula f) (.set set) ns) := by
  obtain ⟨node, hnode⟩ := isSome_ties_set.mp hset
  have hrun₀ : setNode set s = .ok node s := by
    unfold setNode
    simp only [get_bind, hnode]
    rfl
  have hrun₁ := checkDetached_of_detached hf
  obtain ⟨ns, hperm, s₂, hrun₂, hvalid₂, hroot₂, hties₂⟩ := changeSet_floating hs hset f
  have hlive : (s₂.ties (.formula f)).isSome := by
    rw [hties₂, Ties.isSome_setOwned]
    exact hf.1
  obtain ⟨s₃, hrun₃, hvalid₃, hroot₃, hties₃⟩ :=
    setFormulaOwner_succeeds hvalid₂ hlive (some (.set set))
  refine ⟨ns, hperm, s₃, ?_, hvalid₃, hroot₃.trans hroot₂, ?_⟩
  · unfold addFloating
    rw [bind_of_ok hrun₀, bind_of_ok hrun₁, bind_of_ok hrun₂, hrun₃]
  · rw [hties₃, hties₂]
    funext m
    by_cases hm : m = .set set
    · simp [hm, Ties.attach, Ties.setOwner, Ties.setOwned, Ties.write_apply]
    · by_cases hmf : m = .formula f <;>
        simp [hm, hmf, Ties.attach, Ties.setOwner, Ties.setOwned, Ties.write_apply]

lemma addFloating_cases (hs : s.Valid) (set : SetKey) (f : FormulaKey) :
    Refuses (addFloating set f) s ∨
      ((s.ties (.set set)).isSome ∧ Detached s (.formula f)) ∧
        ∃ ns, ns.Perm (.formula f :: s.ties.owned (.set set)) ∧
          Succeeds (addFloating set f) s () (s.ties.attach (.formula f) (.set set) ns) := by
  rcases setNode_cases (s := s) set with hr | ⟨node, hnode, hrun₀⟩
  · exact .inl (hr.bind _)
  by_cases hf : Detached s (.formula f)
  · have hset : (s.ties (.set set)).isSome := by simp [ties_set hnode]
    exact .inr ⟨⟨hset, hf⟩, addFloating_succeeds hs hset hf⟩
  · exact .inl (.of_bind hrun₀ ((refuses_checkDetached hf).bind _))

/-! ## Changing definitions -/

lemma renameDefinition_cases (hs : s.Valid) (d : DefinitionKey) (name : String) :
    Refuses (renameDefinition d name) s ∨ Succeeds (renameDefinition d name) s () s.ties := by
  unfold renameDefinition
  rcases definitionNode_cases (s := s) d with hr | ⟨node, hnode, hrun⟩
  · exact .inl (hr.bind _)
  refine .inr ⟨_, (bind_of_ok hrun).trans (changeDefinition_apply hnode _),
    hs.modifyDefinition d _, rfl, ?_⟩
  rw [ties_modifyDefinition]
  funext m
  by_cases hm : m = .definition d <;>
    simp [hm, Ties.write_apply, ties_definition hnode, hnode, DefinitionNode.tie,
      DefinitionNode.owned]

/-- The ties after the value of a definition was taken away, if it had one. -/
def Ties.detachValue (t : Ties) (d : DefinitionKey) : Option FormulaKey → Ties
  | none => t
  | some v => t.detach (.formula v) (.definition d)

/-- A definition that lists its new value, with the owners of both values changed, has let go of
the old value and has been given the new one. -/
lemma Ties.attachValue_detachValue {t : Ties} {d : DefinitionKey} {old : Option FormulaKey}
    (ho : (t (.definition d)).isSome) (h : t.owned (.definition d) = old.toList.map .formula)
    (value : Option FormulaKey) :
    ((t.setOwned (.definition d) (value.toList.map .formula)).setValueOwner none old).setValueOwner
        (some (.definition d)) value =
      (t.detachValue d old).attachValue d value := by
  obtain ⟨⟨owner, ns⟩, htie⟩ := Option.isSome_iff_exists.mp ho
  obtain rfl : ns = old.toList.map .formula := by simpa [Ties.owned, htie] using h
  funext m
  by_cases hm : m = .definition d
  · subst hm
    cases old <;> cases value <;>
      simp [htie, h, Ties.setValueOwner, Ties.detachValue, Ties.attachValue, Ties.attach,
        Ties.detach, Ties.setOwner, Ties.setOwned, Ties.write_apply]
  · cases old <;> cases value <;>
      simp [hm, Ties.setValueOwner, Ties.detachValue, Ties.attachValue, Ties.attach,
        Ties.detach, Ties.setOwner, Ties.setOwned, Ties.write_apply]

lemma setValue_cases (hs : s.Sound) (d : DefinitionKey) (value : Option FormulaKey) :
    Refuses (setValue d value) s ∨
      ∃ node, s.definitions.get? d = some node ∧ (∀ v ∈ value, Detached s (.formula v)) ∧
        Succeeds (setValue d value) s node.value
          ((s.ties.detachValue d node.value).attachValue d value) := by
  unfold setValue
  rcases definitionNode_cases (s := s) d with hr | ⟨node, hnode, hrun₀⟩
  · exact .inl (hr.bind _)
  rcases checkDetachedValue_cases (s := s) value with hr | ⟨hdet, hrun₁⟩
  · exact .inl (.of_bind hrun₀ (hr.bind _))
  refine .inr ⟨node, hnode, hdet, ?_⟩
  let s₂ : Store := { s with definitions := s.definitions.modify d fun n => { n with value := value } }
  have hrun₂ : changeDefinition d (fun n => { n with value := value }) s = .ok () s₂ :=
    changeDefinition_apply hnode _
  have hvalid₂ : s₂.Valid := hs.valid.modifyDefinition d _
  have hties₂ : s₂.ties = s.ties.setOwned (.definition d) (value.toList.map .formula) := by
    simp only [s₂]
    rw [ties_modifyDefinition]
    simp [Ties.setOwned, ties_definition hnode, hnode, DefinitionNode.tie, DefinitionNode.owned]
  -- the old value refers back to the definition, so it exists
  have hold : ∀ v ∈ node.value, s.ties.owner (.formula v) = some (.definition d) := by
    intro v hv
    rw [← hs.consistent.mem_owned_iff]
    simp [owned_definition hnode, DefinitionNode.owned, Option.mem_def.mp hv]
  have hlive₂ : ∀ v ∈ node.value, (s₂.ties (.formula v)).isSome := by
    intro v hv
    rw [hties₂, Ties.isSome_setOwned]
    exact Ties.isSome_of_owner (hold v hv)
  obtain ⟨s₃, hrun₃, hvalid₃, hroot₃, hties₃⟩ :=
    forM_setFormulaOwner_succeeds hvalid₂ node.value hlive₂ none
  have hlive₃ : ∀ v ∈ value, (s₃.ties (.formula v)).isSome := by
    intro v hv
    rw [hties₃]
    cases node.value <;> simp [hties₂, Ties.setValueOwner, (hdet v hv).1]
  obtain ⟨s₄, hrun₄, hvalid₄, hroot₄, hties₄⟩ :=
    forM_setFormulaOwner_succeeds hvalid₃ value hlive₃ (some (.definition d))
  refine ⟨s₄, ?_, hvalid₄, hroot₄.trans hroot₃, ?_⟩
  · rw [bind_of_ok hrun₀, bind_of_ok hrun₁, bind_of_ok hrun₂, bind_of_ok hrun₃,
      bind_of_ok hrun₄, pure_apply]
  · rw [hties₄, hties₃, hties₂]
    exact Ties.attachValue_detachValue (by simp [ties_definition hnode])
      (owned_definition hnode) value

/-! ## Taking away -/

lemma owned_map_dropCondition {f : FormulaKey} {cases : List (Case FormulaKey)}
    (h : ∀ c ∈ cases, c.value ≠ f) :
    (cases.map (dropCondition f)).flatMap Case.parts =
      (cases.flatMap Case.parts).filter (· ≠ f) := by
  induction cases with
  | nil => rfl
  | cons c cases ih =>
    have hc : c.value ≠ f := h c (by simp)
    rw [List.map_cons, List.flatMap_cons, List.flatMap_cons, List.filter_append,
      ih fun d hd => h d (by simp [hd])]
    congr 1
    cases c with
    | otherwise value =>
      have hv : value ≠ f := hc
      simp [dropCondition, Case.parts, hv]
    | when condition value =>
      have hv : value ≠ f := hc
      by_cases hcond : condition = f
      · simp [dropCondition, Case.parts, hcond, hv]
      · simp [dropCondition, Case.parts, hcond, hv]

lemma filter_map_ne {κ : Type} [DecidableEq κ] {g : κ → NodeKey} (hg : Function.Injective g)
    (key : κ) (keys : List κ) :
    (keys.map g).filter (· ≠ g key) = (keys.filter (· ≠ key)).map g := by
  rw [List.filter_map]
  congr 1
  apply List.filter_congr
  intro k _
  simp [hg.eq_iff]

lemma filter_map_of_forall_ne {κ : Type} {g : κ → NodeKey} {n : NodeKey} (h : ∀ key, g key ≠ n)
    (keys : List κ) : (keys.map g).filter (· ≠ n) = keys.map g := by
  rw [List.filter_eq_self]
  simp [h]

lemma formula_injective : Function.Injective NodeKey.formula := fun _ _ h => by cases h; rfl

lemma definition_injective : Function.Injective NodeKey.definition := fun _ _ h => by
  cases h; rfl

/-- An owner without a formula owns the same nodes as before but for that formula. -/
lemma owned_of_without? {f : FormulaKey} {shape shape' : StoredShape}
    (h : without? f shape = some shape') :
    owned shape' = (owned shape).filter (· ≠ .formula f) := by
  cases shape with
  | call callee arguments =>
    simp only [without?] at h
    split at h
    · cases h
    · rename_i hne
      cases h
      rw [owned, owned, List.filter_cons_of_pos (by simpa using hne), filter_map_ne formula_injective]
  | list items =>
    cases h
    rw [owned, owned, filter_map_ne formula_injective]
  | switch cases =>
    simp only [without?] at h
    split at h
    · cases h
    · rename_i hne
      cases h
      have hvalues : ∀ c ∈ cases, c.value ≠ f := by
        intro c hc hcf
        exact hne (List.any_eq_true.mpr ⟨c, hc, by simpa using hcf⟩)
      rw [owned, owned, owned_map_dropCondition hvalues, filter_map_ne formula_injective]
  | closure parameters body =>
    cases h
    simp [owned]
  | null => cases h; simp [owned]
  | bool value => cases h; simp [owned]
  | number value => cases h; simp [owned]
  | text value => cases h; simp [owned]
  | name word => cases h; simp [owned]
  | matrix value => cases h; simp [owned]

/-- Once the owner of a formula does not list it any more, the formula is detached. -/
lemma setFormulaOwner_none_succeeds (s₁ : Store) {f : FormulaKey} {o : NodeKey}
    (hown : s.ties.owner (.formula f) = some o) (hvalid : s₁.Valid)
    (hroot : s₁.root = s.root)
    (hties : s₁.ties = s.ties.setOwned o ((s.ties.owned o).filter (· ≠ .formula f))) :
    ∃ s₂ : Store, setFormulaOwner f none s₁ = .ok () s₂ ∧ s₂.Valid ∧ s₂.root = s.root ∧
      s₂.ties = s.ties.unlink (.formula f) := by
  have hlive : (s₁.ties (.formula f)).isSome := by
    rw [hties, Ties.isSome_setOwned]
    exact Ties.isSome_of_owner hown
  obtain ⟨s₂, hrun, hvalid₂, hroot₂, hties₂⟩ := setFormulaOwner_succeeds hvalid hlive none
  refine ⟨s₂, hrun, hvalid₂, hroot₂.trans hroot, ?_⟩
  rw [hties₂, hties, Ties.setOwner_setOwned]
  simp only [Ties.unlink, hown, Ties.detach]

/-- A definition is left without its value. -/
lemma ties_dropValue {key : DefinitionKey} {node : DefinitionNode} {f : FormulaKey}
    (h : s.definitions.get? key = some node) (hmem : .formula f ∈ s.ties.owned (.definition key)) :
    ties { s with
        definitions := s.definitions.modify key fun d => { d with value := none } } =
      s.ties.setOwned (.definition key)
        ((s.ties.owned (.definition key)).filter (· ≠ .formula f)) := by
  have howned := owned_definition h
  have hvalue : node.value = some f := by simpa [howned, DefinitionNode.owned] using hmem
  rw [ties_modifyDefinition, howned, DefinitionNode.owned, hvalue]
  simp [Ties.setOwned, ties_definition h, h, DefinitionNode.tie, DefinitionNode.owned]

/-- A formula without a name is taken off the row of a set. -/
lemma ties_unlistFloating {key : SetKey} {node : SetNode} (h : s.sets.get? key = some node)
    (f : FormulaKey) :
    ties { s with
        sets := s.sets.modify key fun n =>
          { n with floating := n.floating.filter (· ≠ f) } } =
      s.ties.setOwned (.set key) ((s.ties.owned (.set key)).filter (· ≠ .formula f)) := by
  rw [ties_modifySet, owned_set h, SetNode.owned, List.filter_append,
    filter_map_of_forall_ne (by simp), filter_map_ne formula_injective]
  simp [Ties.setOwned, ties_set h, h, SetNode.tie, SetNode.owned]

/-- A definition is taken off the row of a set. -/
lemma ties_unlistDefinition {key : SetKey} {node : SetNode} (h : s.sets.get? key = some node)
    (d : DefinitionKey) :
    ties { s with
        sets := s.sets.modify key fun n =>
          { n with definitions := n.definitions.filter (· ≠ d) } } =
      s.ties.setOwned (.set key) ((s.ties.owned (.set key)).filter (· ≠ .definition d)) := by
  rw [ties_modifySet, owned_set h, SetNode.owned, List.filter_append,
    filter_map_ne definition_injective, filter_map_of_forall_ne (by simp)]
  simp [Ties.setOwned, ties_set h, h, SetNode.tie, SetNode.owned]

/-- A formula is left without one of its parts. -/
lemma ties_dropPart {key f : FormulaKey} {node : FormulaNode} {shape : StoredShape}
    (h : s.formulas.get? key = some node) (hwithout : without? f node.shape = some shape) :
    ties { s with formulas := s.formulas.modify key fun n => { n with shape := shape } } =
      s.ties.setOwned (.formula key)
        ((s.ties.owned (.formula key)).filter (· ≠ .formula f)) := by
  rw [ties_modifyFormula, owned_formula h]
  simp [Ties.setOwned, ties_formula h, h, FormulaNode.tie, owned_of_without? hwithout]

/-- A formula without an owner stays as it is. -/
lemma setOwner_none_of_owner_eq_none {t : Ties} {n : NodeKey} (h : t.owner n = none) :
    t.setOwner n none = t.unlink n := by
  simp only [Ties.unlink, h]
  funext m
  by_cases hm : m = n
  · subst hm
    cases htie : t m with
    | none => simp [Ties.setOwner, Ties.write_apply, htie]
    | some tie =>
      have howner : tie.owner = none := by simpa [Ties.owner, htie] using h
      simp [Ties.setOwner, Ties.write_apply, htie, ← howner]
  · simp [Ties.setOwner, Ties.write_apply, hm]

lemma unlink_cases (hs : s.Sound) (f : FormulaKey) :
    Refuses (unlink f) s ∨
      (s.ties (.formula f)).isSome ∧ Succeeds (unlink f) s () (s.ties.unlink (.formula f)) := by
  unfold Store.unlink
  rcases formulaNode_cases (s := s) f with hr | ⟨node, hnode, hrun₀⟩
  · exact .inl (hr.bind _)
  have hlive : (s.ties (.formula f)).isSome := by simp [ties_formula hnode]
  have howner := owner_formula hnode
  cases hown : node.owner with
  | none =>
    rw [hown] at howner
    obtain ⟨s₂, hrun, hvalid, hroot, hties⟩ := setFormulaOwner_succeeds hs.valid hlive none
    refine .inr ⟨hlive, s₂, ?_, hvalid, hroot, hties.trans (setOwner_none_of_owner_eq_none howner)⟩
    rw [bind_of_ok hrun₀]
    simp only [hown, hrun]
  | some o =>
    rw [hown] at howner
    -- the owner lists the formula, so it exists
    have hmem := (hs.consistent.mem_owned_iff o (.formula f)).mpr howner
    cases o with
    | definition key =>
      obtain ⟨owner, hget⟩ := isSome_ties_definition.mp (Ties.isSome_of_mem_owned hmem)
      obtain ⟨s₂, hrun, hrest⟩ := setFormulaOwner_none_succeeds _ howner
        (hs.valid.modifyDefinition key _) rfl (ties_dropValue hget hmem)
      refine .inr ⟨hlive, s₂, ?_, hrest⟩
      rw [bind_of_ok hrun₀]
      simp only [hown]
      rw [bind_of_ok (modify_apply _ _), hrun]
    | set key =>
      obtain ⟨owner, hget⟩ := isSome_ties_set.mp (Ties.isSome_of_mem_owned hmem)
      obtain ⟨s₂, hrun, hrest⟩ := setFormulaOwner_none_succeeds _ howner
        (hs.valid.modifySet key _) rfl (ties_unlistFloating hget f)
      refine .inr ⟨hlive, s₂, ?_, hrest⟩
      rw [bind_of_ok hrun₀]
      simp only [hown]
      rw [bind_of_ok (modify_apply _ _), hrun]
    | formula key =>
      obtain ⟨owner, hget⟩ := isSome_ties_formula.mp (Ties.isSome_of_mem_owned hmem)
      cases hwithout : without? f owner.shape with
      | none =>
        refine .inl ⟨.requiredSlot f, ?_⟩
        rw [bind_of_ok hrun₀]
        simp only [hown]
        rw [get_bind]
        simp only [hget, hwithout]
        rw [bind_apply, refuse_apply]
      | some shape =>
        obtain ⟨s₂, hrun, hrest⟩ := setFormulaOwner_none_succeeds _ howner
          (hs.valid.modifyFormula key _) rfl (ties_dropPart hget hwithout)
        refine .inr ⟨hlive, s₂, ?_, hrest⟩
        rw [bind_of_ok hrun₀]
        simp only [hown]
        rw [get_bind]
        simp only [hget, hwithout]
        rw [bind_of_ok (changeFormula_apply hget _), hrun]

/-! ## Removing -/

lemma free_cons_of_eq_none {n : NodeKey} (h : s.ties n = none) (nodes : List NodeKey) :
    s.free (n :: nodes) = s.free nodes := by
  cases n with
  | formula key =>
    have hnone : s.formulas.get? key = none := by simpa [ties] using h
    rw [free]
    split <;> simp_all
  | definition key =>
    have hnone : s.definitions.get? key = none := by simpa [ties] using h
    rw [free]
    split <;> simp_all
  | set key =>
    have hnone : s.sets.get? key = none := by simpa [ties] using h
    rw [free]
    split <;> simp_all

/-- A node goes before the nodes it owns, and these before the others of the list. -/
lemma free_cons {n : NodeKey} (h : (s.ties n).isSome) (nodes : List NodeKey) :
    s.free (n :: nodes) = (s.removeNode n).free (s.ties.owned n ++ nodes) := by
  cases n with
  | formula key =>
    obtain ⟨node, hnode⟩ := isSome_ties_formula.mp h
    rw [free, owned_formula hnode]
    split <;> simp_all [removeNode]
  | definition key =>
    obtain ⟨node, hnode⟩ := isSome_ties_definition.mp h
    rw [free, owned_definition hnode]
    split <;> simp_all [removeNode]
  | set key =>
    obtain ⟨node, hnode⟩ := isSome_ties_set.mp h
    rw [free, owned_set hnode]
    split <;> simp_all [removeNode]

/-- Induction over the removal of the nodes of a list: the first one is gone already, or it goes
and the nodes it owns come before the others. -/
lemma free_induction {motive : Store → List NodeKey → Prop} (nil : ∀ s, motive s [])
    (gone : ∀ s n nodes, s.ties n = none → motive s nodes → motive s (n :: nodes))
    (live : ∀ s n nodes, (s.ties n).isSome →
      motive (s.removeNode n) (s.ties.owned n ++ nodes) → motive s (n :: nodes))
    (s : Store) (nodes : List NodeKey) : motive s nodes := by
  induction s, nodes using free.induct with
  | case1 s => exact nil s
  | case2 s key nodes hnone ih => exact gone s _ nodes (by simp [ties, hnone]) ih
  | case3 s key nodes node hsome ih =>
    refine live s _ nodes (by simp [ties, hsome]) ?_
    rwa [owned_formula hsome]
  | case4 s key nodes hnone ih => exact gone s _ nodes (by simp [ties, hnone]) ih
  | case5 s key nodes node hsome ih =>
    refine live s _ nodes (by simp [ties, hsome]) ?_
    rwa [owned_definition hsome]
  | case6 s key nodes hnone ih => exact gone s _ nodes (by simp [ties, hnone]) ih
  | case7 s key nodes node hsome ih =>
    refine live s _ nodes (by simp [ties, hsome]) ?_
    rwa [owned_set hsome]

/-- Removing the nodes of a list removes what is below them and nothing else. -/
lemma free_spec (nodes : List NodeKey) {s : Store} (hs : s.Valid) :
    (s.free nodes).Valid ∧ (s.free nodes).root = s.root ∧
      (s.free nodes).ties = s.ties.erase fun m => ∃ r ∈ nodes, s.ties.Below r m := by
  induction s, nodes using free_induction with
  | nil s =>
    rw [free]
    refine ⟨hs, rfl, ?_⟩
    funext m
    rw [Ties.erase_apply_of_not_gone (by simp)]
  | gone s n nodes hnone ih =>
    rw [free_cons_of_eq_none hnone]
    obtain ⟨hvalid, hroot, hties⟩ := ih hs
    exact ⟨hvalid, hroot, hties.trans (Ties.erase_cons_of_eq_none hnone nodes)⟩
  | live s n nodes hlive ih =>
    rw [free_cons hlive]
    obtain ⟨hvalid, hroot, hties⟩ := ih (hs.removeNode n)
    refine ⟨hvalid, hroot.trans (removeNode_root n), ?_⟩
    rw [hties, ties_removeNode, Ties.erase_write_none]

lemma free_succeeds (hs : s.Valid) (n : NodeKey) :
    Succeeds (modify fun s => s.free [n]) s () (s.ties.withoutBelow n) := by
  obtain ⟨hvalid, hroot, hties⟩ := free_spec [n] hs
  exact ⟨s.free [n], rfl, hvalid, hroot, hties.trans (Ties.erase_singleton n)⟩

lemma removeFormula_cases (hs : s.Sound) (f : FormulaKey) :
    Refuses (removeFormula f) s ∨
      (s.ties (.formula f)).isSome ∧
        Succeeds (removeFormula f) s ()
          ((s.ties.unlink (.formula f)).withoutBelow (.formula f)) := by
  unfold removeFormula
  rcases unlink_cases hs f with hr | ⟨hlive, s₁, hrun₁, hvalid₁, hroot₁, hties₁⟩
  · exact .inl (hr.bind _)
  obtain ⟨s₂, hrun₂, hvalid₂, hroot₂, hties₂⟩ := free_succeeds hvalid₁ (.formula f)
  exact .inr ⟨hlive, s₂, (bind_of_ok hrun₁).trans hrun₂, hvalid₂, hroot₂.trans hroot₁,
    by rw [hties₂, hties₁]⟩

lemma detachFormula_cases (hs : s.Sound) (f : FormulaKey) (into : SetKey) :
    Refuses (detachFormula f into) s ∨
      ((s.ties (.formula f)).isSome ∧ (s.ties (.set into)).isSome) ∧
        ∃ ns, ns.Perm (.formula f :: (s.ties.unlink (.formula f)).owned (.set into)) ∧
          Succeeds (detachFormula f into) s ()
            ((s.ties.unlink (.formula f)).attach (.formula f) (.set into) ns) := by
  unfold detachFormula
  rcases setNode_cases (s := s) into with hr | ⟨node, hnode, hrun₀⟩
  · exact .inl (hr.bind _)
  rcases unlink_cases hs f with hr | ⟨hlive, s₁, hrun₁, hvalid₁, hroot₁, hties₁⟩
  · exact .inl (.of_bind hrun₀ (hr.bind _))
  have hinto : (s.ties (.set into)).isSome := by simp [ties_set hnode]
  refine .inr ⟨⟨hlive, hinto⟩, ?_⟩
  have hdet : Detached s₁ (.formula f) := by
    refine ⟨?_, ?_, by simp⟩
    · rwa [hties₁, Ties.isSome_unlink]
    · rw [hties₁, Ties.owner_unlink, if_pos rfl]
  have hinto₁ : (s₁.ties (.set into)).isSome := by rwa [hties₁, Ties.isSome_unlink]
  obtain ⟨ns, hperm, s₂, hrun₂, hvalid₂, hroot₂, hties₂⟩ :=
    addFloating_succeeds hvalid₁ hinto₁ hdet
  rw [hties₁] at hperm hties₂
  refine ⟨ns, hperm, s₂, ?_, hvalid₂, hroot₂.trans hroot₁, hties₂⟩
  rw [bind_of_ok hrun₀, bind_of_ok hrun₁, hrun₂]

lemma removeDefinition_cases (hs : s.Sound) (d : DefinitionKey) :
    Refuses (removeDefinition d) s ∨
      (s.ties (.definition d)).isSome ∧
        Succeeds (removeDefinition d) s ()
          ((s.ties.unlink (.definition d)).withoutBelow (.definition d)) := by
  unfold removeDefinition
  rcases definitionNode_cases (s := s) d with hr | ⟨node, hnode, hrun₀⟩
  · exact .inl (hr.bind _)
  refine .inr ⟨by simp [ties_definition hnode], ?_⟩
  have howner := owner_definition hnode
  cases hown : node.owner with
  | none =>
    obtain ⟨s₂, hrun₂, hvalid₂, hroot₂, hties₂⟩ := free_succeeds hs.valid (.definition d)
    refine ⟨s₂, ?_, hvalid₂, hroot₂, ?_⟩
    · rw [bind_of_ok hrun₀, hown]
      exact hrun₂
    · rw [hties₂]
      simp [Ties.unlink, howner, hown]
  | some key =>
    rw [hown] at howner
    have hmem := (hs.consistent.mem_owned_iff _ _).mpr howner
    obtain ⟨owner, hget⟩ := isSome_ties_set.mp (Ties.isSome_of_mem_owned hmem)
    let s₁ : Store := { s with
      sets := s.sets.modify key fun n => { n with definitions := n.definitions.filter (· ≠ d) } }
    have hties₁ := ties_unlistDefinition hget d
    obtain ⟨s₂, hrun₂, hvalid₂, hroot₂, hties₂⟩ :=
      free_succeeds (s := s₁) (hs.valid.modifySet key _) (.definition d)
    refine ⟨s₂, ?_, hvalid₂, hroot₂, ?_⟩
    · rw [bind_of_ok hrun₀, hown]
      exact hrun₂
    · -- the definition is gone in the end, so it does not matter which owner it had
      rw [hties₂, hties₁, ← Ties.withoutBelow_setOwner (.definition d) none,
        Ties.setOwner_setOwned]
      simp only [Ties.unlink, howner, Option.map_some, Ties.detach]

end Formulary.Store
