/-
# What an edit writes

An edit that goes through is a sequence of small steps, each of which changes the content under
one key.  Here an edit is taken apart into these steps: looking up and checking leave the store
as it is, changing a node changes nothing else, and removing a node leaves every other one.
-/
import Formulary.Proofs.Data.Lists
import Formulary.Proofs.Store.Request

namespace Formulary.Store

variable {s s' s'' : Store}

/-- The node under a key stays, and its content changes by `R`. -/
def Changes (s s' : Store) (n : NodeKey) (R : Content → Content → Prop) : Prop :=
  ∃ a b, s.content? n = some a ∧ s'.content? n = some b ∧ R a b

/-- The nodes of a list change by `R`, and no others. -/
structure Alters (s s' : Store) (ns : List NodeKey) (R : Content → Content → Prop) : Prop where
  changes : ∀ n ∈ ns, Changes s s' n R
  rest : ∀ n, n ∉ ns → s'.content? n = s.content? n

/-- There was no node under a key, now there is the given one, and no other node changes. -/
structure Creates (s s' : Store) (n : NodeKey) (c : Content) : Prop where
  fresh : s.content? n = none
  created : s'.content? n = some c
  rest : ∀ m, m ≠ n → s'.content? m = s.content? m

/-- A node has another owner, or none, and is the same otherwise. -/
inductive Reowned : Option NodeKey → Content → Content → Prop
  | formula (owner : Option NodeKey) (node : FormulaNode) :
      Reowned owner (.formula node) (.formula { node with owner := owner })
  | set (owner : FormulaKey) (node : SetNode) :
      Reowned (some (.formula owner)) (.set node) (.set { node with owner := some owner })

/-- A node stops listing another one and is the same otherwise: a definition has no value any
more, an argument, an item, a definition or a formula without a name is missing in the row where
it was, a case has no condition. -/
inductive Loses : NodeKey → Content → Content → Prop
  | value (f : FormulaKey) (node : DefinitionNode) :
      Loses (.formula f) (.definition { node with value := some f })
        (.definition { node with value := none })
  | argument (f callee : FormulaKey) (before after : List FormulaKey) (node : FormulaNode) :
      Loses (.formula f) (.formula { node with shape := .call callee (before ++ f :: after) })
        (.formula { node with shape := .call callee (before ++ after) })
  | item (f : FormulaKey) (before after : List FormulaKey) (node : FormulaNode) :
      Loses (.formula f) (.formula { node with shape := .list (before ++ f :: after) })
        (.formula { node with shape := .list (before ++ after) })
  | condition (f value : FormulaKey) (before after : List (Case FormulaKey)) (node : FormulaNode) :
      Loses (.formula f)
        (.formula { node with shape := .switch (before ++ .when f value :: after) })
        (.formula { node with shape := .switch (before ++ .otherwise value :: after) })
  | floating (f : FormulaKey) (before after : List FormulaKey) (node : SetNode) :
      Loses (.formula f) (.set { node with floating := before ++ f :: after })
        (.set { node with floating := before ++ after })
  | definition (d : DefinitionKey) (before after : List DefinitionKey) (node : SetNode) :
      Loses (.definition d) (.set { node with definitions := before ++ d :: after })
        (.set { node with definitions := before ++ after })

/-- A set lists another definition or another formula without a name, as its last one, and is the
same otherwise. -/
inductive Gains : NodeKey → Content → Content → Prop
  | definition (d : DefinitionKey) (node : SetNode) :
      Gains (.definition d) (.set node) (.set { node with definitions := node.definitions ++ [d] })
  | floating (f : FormulaKey) (node : SetNode) :
      Gains (.formula f) (.set node) (.set { node with floating := node.floating ++ [f] })

section Changes

variable {n m : NodeKey} {R T : Content → Content → Prop}

lemma Changes.congr_right (h : Changes s s' n R) (hn : s''.content? n = s'.content? n) :
    Changes s s'' n R := by
  obtain ⟨a, b, ha, hb, hR⟩ := h
  exact ⟨a, b, ha, hn.trans hb, hR⟩

lemma Changes.congr_left (h : Changes s' s'' n R) (hn : s'.content? n = s.content? n) :
    Changes s s'' n R := by
  obtain ⟨a, b, ha, hb, hR⟩ := h
  exact ⟨a, b, hn ▸ ha, hb, hR⟩

lemma Changes.comp (h : Changes s s' n R) (h' : Changes s' s'' n T) :
    Changes s s'' n (Relation.Comp R T) := by
  obtain ⟨a, b, ha, hb, hR⟩ := h
  obtain ⟨b', c, hb', hc, hT⟩ := h'
  obtain rfl : b = b' := Option.some.inj (hb.symm.trans hb')
  exact ⟨a, c, ha, hc, b, hR, hT⟩

lemma Changes.mono (h : Changes s s' n R) (hRT : ∀ a b, R a b → T a b) : Changes s s' n T := by
  obtain ⟨a, b, ha, hb, hR⟩ := h
  exact ⟨a, b, ha, hb, hRT a b hR⟩

lemma Changes.live (h : Changes s s' n R) : (s'.content? n).isSome := by
  obtain ⟨a, b, -, hb, -⟩ := h
  simp [hb]

lemma alters_of_content? {a b : Content} (ha : s.content? n = some a) (hR : R a b)
    (h : s'.content? = Function.update s.content? n (some b)) : Alters s s' [n] R where
  changes := by
    intro m hm
    rw [List.mem_singleton.mp hm]
    exact ⟨a, b, ha, by rw [h, Function.update_self], hR⟩
  rest := fun m hm => by rw [h, Function.update_of_ne (by simpa using hm)]

lemma alters_nil (h : s'.content? = s.content?) : Alters s s' [] R where
  changes := by simp
  rest := by simp [h]

/-- A change stands if the nodes that change later are others. -/
lemma Alters.changes_left {ns ms : List NodeKey} (h : Alters s s' ns R) (h' : Alters s' s'' ms T)
    (hn : n ∈ ns) (hm : n ∉ ms) : Changes s s'' n R :=
  (h.changes n hn).congr_right (h'.rest n hm)

/-- A change is the same if the nodes that changed before are others. -/
lemma Alters.changes_right {ns ms : List NodeKey} (h : Alters s s' ns R) (h' : Alters s' s'' ms T)
    (hn : n ∉ ns) (hm : n ∈ ms) : Changes s s'' n T :=
  (h'.changes n hm).congr_left (h.rest n hn)

lemma Alters.rest_both {ns ms : List NodeKey} (h : Alters s s' ns R) (h' : Alters s' s'' ms T)
    (hn : n ∉ ns) (hm : n ∉ ms) : s''.content? n = s.content? n :=
  (h'.rest n hm).trans (h.rest n hn)

/-- Edits of different nodes by the same relation, one after the other. -/
lemma Alters.append {ns ms : List NodeKey} (h : Alters s s' ns R) (h' : Alters s' s'' ms R)
    (hdisjoint : ns.Disjoint ms) : Alters s s'' (ns ++ ms) R where
  changes := by
    intro m hm
    rcases List.mem_append.mp hm with hm | hm
    · exact h.changes_left h' hm (hdisjoint hm)
    · exact h.changes_right h' (fun hn => hdisjoint hn hm) hm
  rest := by
    intro m hm
    rw [List.mem_append, not_or] at hm
    exact h.rest_both h' hm.1 hm.2

end Changes

lemma isSome_content? (n : NodeKey) : (s.content? n).isSome = (s.ties n).isSome := by
  simp [ties_eq]

/-! ## Taking edits apart -/

lemma bind_eq_ok {α β : Type} {m : Edit α} {f : α → Edit β} {b : β} :
    (m >>= f) s = .ok b s'' ↔ ∃ a s', m s = .ok a s' ∧ f a s' = .ok b s'' := by
  rw [bind_apply]
  cases m s <;> simp

lemma Refuses.ne_ok {α : Type} {m : Edit α} (h : Refuses m s) (a : α) (s' : Store) :
    m s ≠ .ok a s' := by
  obtain ⟨reason, h⟩ := h
  simp [h]

lemma formulaNode_ok {key : FormulaKey} {node : FormulaNode} (h : formulaNode key s = .ok node s') :
    s.formulas.get? key = some node ∧ s = s' := by
  rcases formulaNode_cases (s := s) key with hr | ⟨node', hnode, hrun⟩
  · exact absurd h (hr.ne_ok _ _)
  · rw [hrun] at h
    cases h
    exact ⟨hnode, rfl⟩

lemma definitionNode_ok {key : DefinitionKey} {node : DefinitionNode}
    (h : definitionNode key s = .ok node s') : s.definitions.get? key = some node ∧ s = s' := by
  rcases definitionNode_cases (s := s) key with hr | ⟨node', hnode, hrun⟩
  · exact absurd h (hr.ne_ok _ _)
  · rw [hrun] at h
    cases h
    exact ⟨hnode, rfl⟩

lemma setNode_ok {key : SetKey} {node : SetNode} (h : setNode key s = .ok node s') :
    s.sets.get? key = some node ∧ s = s' := by
  rcases setNode_cases (s := s) key with hr | ⟨node', hnode, hrun⟩
  · exact absurd h (hr.ne_ok _ _)
  · rw [hrun] at h
    cases h
    exact ⟨hnode, rfl⟩

lemma checkDetached_ok {n : NodeKey} (h : checkDetached n s = .ok () s') :
    Detached s n ∧ s = s' := by
  by_cases hn : Detached s n
  · rw [checkDetached_of_detached hn] at h
    cases h
    exact ⟨hn, rfl⟩
  · exact absurd h ((refuses_checkDetached hn).ne_ok _ _)

lemma forM_checkDetached_ok {ns : List NodeKey} (h : ns.forM checkDetached s = .ok () s') :
    (∀ n ∈ ns, Detached s n) ∧ s = s' := by
  rcases forM_checkDetached (s := s) ns with hr | ⟨hns, hrun⟩
  · exact absurd h (hr.ne_ok _ _)
  · rw [hrun] at h
    cases h
    exact ⟨hns, rfl⟩

lemma checkDetachedValue_ok {value : Option FormulaKey}
    (h : checkDetachedValue value s = .ok () s') :
    (∀ v ∈ value, Detached s (.formula v)) ∧ s = s' := by
  rcases checkDetachedValue_cases (s := s) value with hr | ⟨hdet, hrun⟩
  · exact absurd h (hr.ne_ok _ _)
  · rw [hrun] at h
    cases h
    exact ⟨hdet, rfl⟩

/-! ## Creating one node -/

lemma creates_of_content? {n : NodeKey} {c : Content} (hn : s.content? n = none)
    (h : s'.content? = Function.update s.content? n (some c)) : Creates s s' n c where
  fresh := hn
  created := by rw [h, Function.update_self]
  rest := fun m hm => by rw [h, Function.update_of_ne hm]

lemma insertFormula_ok (hs : s.Valid) {node : FormulaNode} {key : FormulaKey}
    (h : insertFormula node s = .ok key s') : Creates s s' (.formula key) (.formula node) := by
  cases h
  exact creates_of_content? (by simp [content?, Slots.get?_nextKey])
    (content?_insertFormula hs.formulas node)

lemma insertDefinition_ok (hs : s.Valid) {node : DefinitionNode} {key : DefinitionKey}
    (h : insertDefinition node s = .ok key s') :
    Creates s s' (.definition key) (.definition node) := by
  cases h
  exact creates_of_content? (by simp [content?, Slots.get?_nextKey])
    (content?_insertDefinition hs.definitions node)

lemma insertSet_ok (hs : s.Valid) {node : SetNode} {key : SetKey}
    (h : insertSet node s = .ok key s') : Creates s s' (.set key) (.set node) := by
  cases h
  exact creates_of_content? (by simp [content?, Slots.get?_nextKey])
    (content?_insertSet hs.sets node)

/-! ## Changing one node -/

lemma content?_formula {key : FormulaKey} {node : FormulaNode}
    (h : s.formulas.get? key = some node) : s.content? (.formula key) = some (.formula node) := by
  simp [content?, h]

lemma content?_definition {key : DefinitionKey} {node : DefinitionNode}
    (h : s.definitions.get? key = some node) :
    s.content? (.definition key) = some (.definition node) := by
  simp [content?, h]

lemma content?_set {key : SetKey} {node : SetNode} (h : s.sets.get? key = some node) :
    s.content? (.set key) = some (.set node) := by
  simp [content?, h]

lemma alters_modifyFormula {key : FormulaKey} {node : FormulaNode}
    {R : Content → Content → Prop} (hnode : s.formulas.get? key = some node)
    {f : FormulaNode → FormulaNode} (hR : R (.formula node) (.formula (f node))) :
    Alters s { s with formulas := s.formulas.modify key f } [.formula key] R :=
  alters_of_content? (content?_formula hnode) hR (by rw [content?_modifyFormula, hnode]; rfl)

lemma alters_modifyDefinition {key : DefinitionKey} {node : DefinitionNode}
    {R : Content → Content → Prop} (hnode : s.definitions.get? key = some node)
    {f : DefinitionNode → DefinitionNode} (hR : R (.definition node) (.definition (f node))) :
    Alters s { s with definitions := s.definitions.modify key f } [.definition key] R :=
  alters_of_content? (content?_definition hnode) hR
    (by rw [content?_modifyDefinition, hnode]; rfl)

lemma alters_modifySet {key : SetKey} {node : SetNode}
    {R : Content → Content → Prop} (hnode : s.sets.get? key = some node)
    {f : SetNode → SetNode} (hR : R (.set node) (.set (f node))) :
    Alters s { s with sets := s.sets.modify key f } [.set key] R :=
  alters_of_content? (content?_set hnode) hR (by rw [content?_modifySet, hnode]; rfl)

lemma changeFormula_ok {key : FormulaKey} {f : FormulaNode → FormulaNode}
    {R : Content → Content → Prop} (h : changeFormula key f s = .ok () s')
    (hR : ∀ node, s.formulas.get? key = some node → R (.formula node) (.formula (f node))) :
    Alters s s' [.formula key] R := by
  cases hnode : s.formulas.get? key with
  | none =>
    have hrun : changeFormula key f s = .error (.defect .invalidKey) s := by
      unfold changeFormula
      simp only [get_bind, hnode]
      rfl
    rw [hrun] at h
    cases h
  | some node =>
    rw [changeFormula_apply hnode] at h
    cases h
    exact alters_modifyFormula hnode (hR node hnode)

lemma changeDefinition_ok {key : DefinitionKey} {f : DefinitionNode → DefinitionNode}
    {R : Content → Content → Prop} (h : changeDefinition key f s = .ok () s')
    (hR : ∀ node, s.definitions.get? key = some node →
      R (.definition node) (.definition (f node))) :
    Alters s s' [.definition key] R := by
  cases hnode : s.definitions.get? key with
  | none =>
    have hrun : changeDefinition key f s = .error (.defect .invalidKey) s := by
      unfold changeDefinition
      simp only [get_bind, hnode]
      rfl
    rw [hrun] at h
    cases h
  | some node =>
    rw [changeDefinition_apply hnode] at h
    cases h
    exact alters_modifyDefinition hnode (hR node hnode)

lemma changeSet_ok {key : SetKey} {f : SetNode → SetNode}
    {R : Content → Content → Prop} (h : changeSet key f s = .ok () s')
    (hR : ∀ node, s.sets.get? key = some node → R (.set node) (.set (f node))) :
    Alters s s' [.set key] R := by
  cases hnode : s.sets.get? key with
  | none =>
    have hrun : changeSet key f s = .error (.defect .invalidKey) s := by
      unfold changeSet
      simp only [get_bind, hnode]
      rfl
    rw [hrun] at h
    cases h
  | some node =>
    rw [changeSet_apply hnode] at h
    cases h
    exact alters_modifySet hnode (hR node hnode)

lemma setFormulaOwner_ok {key : FormulaKey} {owner : Option NodeKey}
    (h : setFormulaOwner key owner s = .ok () s') :
    Alters s s' [.formula key] (Reowned owner) :=
  changeFormula_ok h fun node _ => .formula owner node

lemma setOwner_ok {owner : FormulaKey} {n : NodeKey} (hn : ∀ key, n ≠ .definition key)
    (h : setOwner owner n s = .ok () s') :
    Alters s s' [n] (Reowned (some (.formula owner))) := by
  cases n with
  | formula key => exact setFormulaOwner_ok h
  | definition key => exact absurd rfl (hn key)
  | set key => exact changeSet_ok h fun node _ => .set owner node

/-- Changing the nodes of a list one after the other, each of them once. -/
lemma forM_ok {α : Type} {R : Content → Content → Prop} {run : α → Edit Unit}
    {key : α → NodeKey} {as : List α} (hnodup : (as.map key).Nodup)
    (hrun : ∀ a ∈ as, ∀ s s', run a s = .ok () s' → Alters s s' [key a] R)
    (h : as.forM run s = .ok () s') : Alters s s' (as.map key) R := by
  induction as generalizing s with
  | nil =>
    cases h
    exact alters_nil rfl
  | cons a as ih =>
    obtain ⟨_, s₁, h₁, h₂⟩ := bind_eq_ok.mp h
    rw [List.map_cons, List.nodup_cons] at hnodup
    have hrest := ih hnodup.2 (fun b hb => hrun b (by simp [hb])) h₂
    refine (hrun a (by simp) s s₁ h₁).append hrest ?_
    simpa [List.disjoint_left] using hnodup.1

lemma forM_setOwner_ok {owner : FormulaKey} {shape : StoredShape} (hnodup : (owned shape).Nodup)
    (h : (owned shape).forM (setOwner owner) s = .ok () s') :
    Alters s s' (owned shape) (Reowned (some (.formula owner))) := by
  have hmap : (owned shape).map id = owned shape := List.map_id _
  rw [← hmap] at hnodup ⊢
  exact forM_ok hnodup
    (fun n hn _ _ hrun => setOwner_ok (ne_definition_of_mem_owned hn) hrun) h

lemma forM_setFormulaOwner_ok {owner : Option NodeKey} {value : Option FormulaKey}
    (h : (value.toList.forM fun v => setFormulaOwner v owner) s = .ok () s') :
    Alters s s' (value.toList.map .formula) (Reowned owner) := by
  refine forM_ok ?_ (fun v _ _ _ hrun => setFormulaOwner_ok hrun) h
  cases value <;> simp

/-! ## Taking a formula away from its owner -/

/-- Dropping a condition changes no case that does not hold the formula. -/
lemma map_dropCondition_eq {f : FormulaKey} {cases : List (Case FormulaKey)}
    (h : f ∉ cases.flatMap Case.parts) : cases.map (dropCondition f) = cases := by
  refine (List.map_congr_left fun c hc => ?_).trans (List.map_id _)
  have hf : f ∉ c.parts := fun hf => h (List.mem_flatMap.mpr ⟨c, hc, hf⟩)
  cases c with
  | otherwise value => rfl
  | when condition value =>
    have hne : condition ≠ f := fun heq => hf (by simp [Case.parts, heq])
    simp [dropCondition, hne]

/-- A row of cases in which a formula is a condition, which it is once. -/
lemma exists_map_dropCondition {f : FormulaKey} {cases : List (Case FormulaKey)}
    (hnodup : (cases.flatMap Case.parts).Nodup) (h : f ∈ cases.flatMap Case.parts)
    (hvalue : ∀ c ∈ cases, c.value ≠ f) :
    ∃ before value after, cases = before ++ .when f value :: after ∧
      cases.map (dropCondition f) = before ++ .otherwise value :: after := by
  obtain ⟨c, hc, hf⟩ := List.mem_flatMap.mp h
  obtain ⟨before, after, rfl⟩ := List.mem_iff_append.mp hc
  obtain ⟨value, rfl⟩ : ∃ value, c = .when f value := by
    cases c with
    | otherwise value =>
      have heq : f = value := by simpa [Case.parts] using hf
      exact absurd heq.symm (hvalue _ hc)
    | when condition value =>
      have hne : value ≠ f := hvalue _ hc
      have heq : f = condition := by simpa [Case.parts, hne.symm] using hf
      exact ⟨value, by rw [heq]⟩
  rw [List.flatMap_append, List.flatMap_cons] at hnodup
  have hbefore : f ∉ before.flatMap Case.parts := fun hmem =>
    List.disjoint_of_nodup_append hnodup hmem (by simp [Case.parts])
  have hafter : f ∉ after.flatMap Case.parts := fun hmem =>
    List.disjoint_of_nodup_append (List.Nodup.of_append_right hnodup) (by simp [Case.parts]) hmem
  refine ⟨before, value, after, rfl, ?_⟩
  rw [List.map_append, List.map_cons, map_dropCondition_eq hbefore, map_dropCondition_eq hafter]
  simp [dropCondition]

lemma loses_of_without? {f : FormulaKey} {node : FormulaNode} {shape : StoredShape}
    (hnodup : (owned node.shape).Nodup) (hmem : .formula f ∈ owned node.shape)
    (h : without? f node.shape = some shape) :
    Loses (.formula f) (.formula node) (.formula { node with shape := shape }) := by
  obtain ⟨shape₀, owner, span⟩ := node
  cases shape₀ with
  | call callee arguments =>
    simp only [without?] at h
    split at h
    · cases h
    · rename_i hne
      cases h
      simp only [owned, List.nodup_cons] at hnodup
      -- it is not the callee, so it is an argument
      have hf : f ∈ arguments := by simpa [owned, Ne.symm hne] using hmem
      obtain ⟨before, after, rfl, hfilter⟩ :=
        exists_filter_ne (List.Nodup.of_map _ hnodup.2) hf
      rw [hfilter]
      exact .argument f callee before after ⟨.null, owner, span⟩
  | list items =>
    cases h
    have hf : f ∈ items := by simpa [owned] using hmem
    obtain ⟨before, after, rfl, hfilter⟩ := exists_filter_ne (List.Nodup.of_map _ hnodup) hf
    rw [hfilter]
    exact .item f before after ⟨.null, owner, span⟩
  | switch cases =>
    simp only [without?] at h
    split at h
    · cases h
    · rename_i hne
      cases h
      -- it is the value of no case, so it is a condition
      have hvalue : ∀ c ∈ cases, c.value ≠ f := by
        intro c hc hcf
        exact hne (List.any_eq_true.mpr ⟨c, hc, by simpa using hcf⟩)
      obtain ⟨before, value, after, rfl, hdrop⟩ :=
        exists_map_dropCondition (List.Nodup.of_map _ hnodup) (by simpa [owned] using hmem) hvalue
      rw [hdrop]
      exact .condition f value before after ⟨.null, owner, span⟩
  | closure parameters body => simp [owned] at hmem
  | null => simp [owned] at hmem
  | bool value => simp [owned] at hmem
  | number value => simp [owned] at hmem
  | text value => simp [owned] at hmem
  | name word => simp [owned] at hmem
  | matrix value => simp [owned] at hmem

lemma loses_value {f : FormulaKey} {node : DefinitionNode} (hmem : .formula f ∈ node.owned) :
    Loses (.formula f) (.definition node) (.definition { node with value := none }) := by
  have hvalue : node.value = some f := by simpa [DefinitionNode.owned] using hmem
  obtain ⟨name, value, owner, span⟩ := node
  cases hvalue
  exact .value f ⟨name, none, owner, span⟩

lemma loses_floating {f : FormulaKey} {node : SetNode} (hnodup : node.owned.Nodup)
    (hmem : .formula f ∈ node.owned) :
    Loses (.formula f) (.set node) (.set { node with floating := node.floating.filter (· ≠ f) }) := by
  rw [SetNode.owned] at hmem hnodup
  have hf : f ∈ node.floating := by simpa using hmem
  obtain ⟨definitions, floating, owner⟩ := node
  obtain ⟨before, after, rfl, hfilter⟩ :=
    exists_filter_ne (List.Nodup.of_map _ hnodup.of_append_right) hf
  simp only [hfilter]
  exact .floating f before after ⟨definitions, [], owner⟩

/-- Taking a formula away first takes it off the row of its owner, then it loses its owner. -/
lemma unlink_ok (hs : s.Sound) {f : FormulaKey} (h : unlink f s = .ok () s'') :
    ∃ s', Alters s s' (s.ties.owner (.formula f)).toList (Loses (.formula f)) ∧
      Alters s' s'' [.formula f] (Reowned none) := by
  unfold unlink at h
  obtain ⟨node, s₀, h₀, h⟩ := bind_eq_ok.mp h
  obtain ⟨hnode, rfl⟩ := formulaNode_ok h₀
  have howner := owner_formula hnode
  have hlisted := fun o => hs.consistent.mem_owned_iff o (.formula f)
  rw [howner] at hlisted ⊢
  cases hown : node.owner with
  | none =>
    simp only [hown] at h
    exact ⟨s, alters_nil rfl, setFormulaOwner_ok h⟩
  | some o =>
    simp only [hown] at h
    -- the owner lists the formula, so it is there, and lists it once
    have hmem := (hlisted o).mpr hown
    have hnodup := hs.consistent.nodup o
    cases o with
    | definition key =>
      obtain ⟨_, s₁, h₁, h₂⟩ := bind_eq_ok.mp h
      cases h₁
      obtain ⟨owner, hget⟩ := isSome_ties_definition.mp (Ties.isSome_of_mem_owned hmem)
      rw [owned_definition hget] at hmem
      exact ⟨_, alters_modifyDefinition hget (loses_value hmem), setFormulaOwner_ok h₂⟩
    | set key =>
      obtain ⟨_, s₁, h₁, h₂⟩ := bind_eq_ok.mp h
      cases h₁
      obtain ⟨owner, hget⟩ := isSome_ties_set.mp (Ties.isSome_of_mem_owned hmem)
      rw [owned_set hget] at hmem hnodup
      exact ⟨_, alters_modifySet hget (loses_floating hnodup hmem), setFormulaOwner_ok h₂⟩
    | formula key =>
      obtain ⟨owner, hget⟩ := isSome_ties_formula.mp (Ties.isSome_of_mem_owned hmem)
      rw [owned_formula hget] at hmem hnodup
      simp only [get_bind, hget] at h
      cases hwithout : without? f owner.shape with
      | none =>
        simp only [hwithout] at h
        obtain ⟨_, s₁, h₁, -⟩ := bind_eq_ok.mp h
        cases h₁
      | some shape =>
        simp only [hwithout] at h
        obtain ⟨_, s₁, h₁, h₂⟩ := bind_eq_ok.mp h
        refine ⟨s₁, changeFormula_ok h₁ fun node' hget' => ?_, setFormulaOwner_ok h₂⟩
        obtain rfl : owner = node' := Option.some.inj (hget.symm.trans hget')
        exact loses_of_without? hnodup hmem hwithout

/-! ## Removing -/

/-- Removing nodes changes no node that stays. -/
lemma content?_free (nodes : List NodeKey) (s : Store) (n : NodeKey) :
    (s.free nodes).content? n = s.content? n ∨ (s.free nodes).content? n = none := by
  induction s, nodes using free_induction with
  | nil s => exact .inl (by rw [free])
  | gone s m nodes hnone ih => rwa [free_cons_of_eq_none hnone]
  | live s m nodes hlive ih =>
    rw [content?_removeNode, Function.update_apply] at ih
    rw [free_cons hlive]
    split at ih
    · exact .inr (ih.elim id id)
    · exact ih

/-- Removing a node removes what is below it and leaves the other nodes as they are. -/
lemma content?_free_singleton (hs : s.Valid) (n : NodeKey) :
    (∀ m, s.ties.Below n m → (s.free [n]).content? m = none) ∧
      ∀ m, ¬ s.ties.Below n m → (s.free [n]).content? m = s.content? m := by
  have hties := (free_spec [n] hs).2.2.trans (Ties.erase_singleton n)
  have hlive : ∀ m, ((s.free [n]).content? m).isSome = (s.ties.withoutBelow n m).isSome := by
    intro m
    rw [isSome_content?, hties]
  constructor
  · intro m hm
    have hnone := hlive m
    rw [Ties.withoutBelow, Ties.erase_apply_of_gone hm] at hnone
    simpa using hnone
  · intro m hm
    have hsome := hlive m
    rw [Ties.withoutBelow, Ties.erase_apply_of_not_gone hm, ← isSome_content?] at hsome
    rcases content?_free [n] s m with h | h
    · exact h
    · rw [h] at hsome ⊢
      exact (by simpa using hsome : s.content? m = none).symm

end Formulary.Store
