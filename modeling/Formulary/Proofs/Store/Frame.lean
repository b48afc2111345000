/-
# What requests touch

A request that goes through changes few nodes.  Adding creates one node; attaching and moving
change the owners of the nodes that are attached or taken away and the rows in which these are
listed; removing takes a node away with all that is below it, and its former owner stops listing
it.  Every other node is as it was before, so nothing else is removed, and no row loses a node
that the request does not name.
-/
import Formulary.Proofs.Store.Changes
import Formulary.Proofs.Store.Nesting

namespace Formulary.Store

variable {s s' : Store}

/-! ## The footprint of a request -/

/-- A definition has another name and is the same otherwise. -/
inductive Renamed (name : String) : Content → Content → Prop
  | mk (node : DefinitionNode) :
      Renamed name (.definition node) (.definition { node with name := name })

/-- A definition has another value, or none, and is the same otherwise. -/
inductive Rebound (value : Option FormulaKey) : Content → Content → Prop
  | mk (node : DefinitionNode) :
      Rebound value (.definition node) (.definition { node with value := value })

/-- A formula was moved into a set.  Its former owner stops listing it, and the set lists it as
the last of its formulas without a name. -/
structure Moves (s s' : Store) (f : FormulaKey) (into : SetKey) : Prop where
  moved : Changes s s' (.formula f) (Reowned (some (.set into)))
  left : ∀ o, s.ties.owner (.formula f) = some o → o ≠ .set into →
    Changes s s' o (Loses (.formula f))
  joined : s.ties.owner (.formula f) ≠ some (.set into) →
    Changes s s' (.set into) (Gains (.formula f))
  rejoined : s.ties.owner (.formula f) = some (.set into) →
    Changes s s' (.set into) (Relation.Comp (Loses (.formula f)) (Gains (.formula f)))
  rest : ∀ n, n ≠ .formula f → s.ties.owner (.formula f) ≠ some n → n ≠ .set into →
    s'.content? n = s.content? n

/-- A node was removed with all that is below it.  Its former owner stops listing it, unless it
was removed as well. -/
structure Removes (s s' : Store) (n : NodeKey) : Prop where
  live : ∀ m, s.ties.Below n m → (s.content? m).isSome
  gone : ∀ m, s.ties.Below n m → s'.content? m = none
  left : ∀ o, s.ties.owner n = some o → ¬ s.ties.Below n o → Changes s s' o (Loses n)
  rest : ∀ m, ¬ s.ties.Below n m → s.ties.owner n ≠ some m → s'.content? m = s.content? m

/-- What a request changes if it goes through: the nodes that change and how they do, and that no
other node does. -/
inductive Touches (s s' : Store) : Request → Prop
  | addFormula {shape : StoredShape} (new : FormulaKey)
      (fresh : s.content? (.formula new) = none)
      (created : s'.content? (.formula new) = some (.formula ⟨shape, none, none⟩))
      (attached : ∀ n ∈ owned shape,
        Detached s n ∧ Changes s s' n (Reowned (some (.formula new))))
      (rest : ∀ n, n ≠ .formula new → n ∉ owned shape → s'.content? n = s.content? n) :
      Touches s s' (.addFormula shape)
  | addSet (new : SetKey) (fresh : s.content? (.set new) = none)
      (created : s'.content? (.set new) = some (.set SetNode.empty))
      (rest : ∀ n, n ≠ .set new → s'.content? n = s.content? n) :
      Touches s s' .addSet
  | addDefinition {set : SetKey} {name : String} {value : Option FormulaKey}
      (new : DefinitionKey) (fresh : s.content? (.definition new) = none)
      (created : s'.content? (.definition new) =
        some (.definition ⟨name, value, some set, none⟩))
      (attached : ∀ v ∈ value,
        Detached s (.formula v) ∧ Changes s s' (.formula v) (Reowned (some (.definition new))))
      (listed : Changes s s' (.set set) (Gains (.definition new)))
      (rest : ∀ n, n ≠ .definition new → value.map .formula ≠ some n → n ≠ .set set →
        s'.content? n = s.content? n) :
      Touches s s' (.addDefinition set name value)
  | renameDefinition {d : DefinitionKey} {name : String}
      (renamed : Changes s s' (.definition d) (Renamed name))
      (rest : ∀ n, n ≠ .definition d → s'.content? n = s.content? n) :
      Touches s s' (.renameDefinition d name)
  | setValue {d : DefinitionKey} {value : Option FormulaKey} (node : DefinitionNode)
      (before : s.definitions.get? d = some node)
      (rebound : Changes s s' (.definition d) (Rebound value))
      (detached : ∀ v ∈ node.value, Changes s s' (.formula v) (Reowned none))
      (attached : ∀ v ∈ value,
        Detached s (.formula v) ∧ Changes s s' (.formula v) (Reowned (some (.definition d))))
      (rest : ∀ n, n ≠ .definition d → node.value.map .formula ≠ some n →
        value.map .formula ≠ some n → s'.content? n = s.content? n) :
      Touches s s' (.setValue d value)
  | addFloating {set : SetKey} {f : FormulaKey}
      (attached : Detached s (.formula f) ∧
        Changes s s' (.formula f) (Reowned (some (.set set))))
      (listed : Changes s s' (.set set) (Gains (.formula f)))
      (rest : ∀ n, n ≠ .formula f → n ≠ .set set → s'.content? n = s.content? n) :
      Touches s s' (.addFloating set f)
  | detachFormula {f : FormulaKey} {into : SetKey} (moves : Moves s s' f into) :
      Touches s s' (.detachFormula f into)
  | removeFormula {f : FormulaKey} (removes : Removes s s' (.formula f)) :
      Touches s s' (.removeFormula f)
  | removeDefinition {d : DefinitionKey} (removes : Removes s s' (.definition d)) :
      Touches s s' (.removeDefinition d)

/-- The nodes that a request removes if it goes through. -/
def Request.Frees (s : Store) : Request → NodeKey → Prop
  | .removeFormula f, n => s.ties.Below (.formula f) n
  | .removeDefinition d, n => s.ties.Below (.definition d) n
  | _, _ => False

/-! ## Adding -/

lemma not_mem_value {value : Option FormulaKey} {n : NodeKey} (h : value.map .formula ≠ some n) :
    n ∉ value.toList.map .formula := by
  cases value with
  | none => simp
  | some v => simpa [eq_comm] using h

lemma mem_value {value : Option FormulaKey} {v : FormulaKey} (h : v ∈ value) :
    .formula v ∈ value.toList.map NodeKey.formula := by
  simpa using h

lemma Detached.live {n : NodeKey} (h : Detached s n) : (s.content? n).isSome := by
  rw [isSome_content?]
  exact h.1

lemma addFormula_touches (hs : s.Valid) {shape : StoredShape} {key : FormulaKey}
    (h : Store.addFormula shape s = .ok key s') : Touches s s' (.addFormula shape) := by
  unfold Store.addFormula at h
  cases hrep : firstRepeated? (owned shape) with
  | some n =>
    simp only [hrep] at h
    obtain ⟨_, _, h₀, -⟩ := bind_eq_ok.mp h
    cases h₀
  | none =>
    simp only [hrep] at h
    obtain ⟨_, s₀, h₀, h⟩ := bind_eq_ok.mp h
    obtain ⟨hdet, rfl⟩ := forM_checkDetached_ok h₀
    obtain ⟨_, s₁, h₁, h⟩ := bind_eq_ok.mp h
    obtain ⟨_, s₂, h₂, h₃⟩ := bind_eq_ok.mp h
    cases h₃
    have hcreate := insertFormula_ok hs h₁
    have hattach := forM_setOwner_ok ((firstRepeated?_eq_none_iff _).mp hrep) h₂
    -- the nodes that are attached exist already, so the new node is none of them
    have hne : ∀ n ∈ owned shape, n ≠ .formula key := by
      rintro n hn rfl
      simpa [hcreate.fresh] using (hdet _ hn).live
    refine .addFormula key hcreate.fresh ?_ (fun n hn => ⟨hdet n hn, ?_⟩) fun n hn hmem => ?_
    · rw [hattach.rest _ fun hmem => hne _ hmem rfl, hcreate.created]
    · exact (hattach.changes n hn).congr_left (hcreate.rest n (hne n hn))
    · rw [hattach.rest n hmem, hcreate.rest n hn]

lemma addSet_touches (hs : s.Valid) {key : SetKey} (h : Store.addSet s = .ok key s') :
    Touches s s' .addSet := by
  have hcreate := insertSet_ok hs h
  exact .addSet key hcreate.fresh hcreate.created hcreate.rest

lemma addDefinition_touches (hs : s.Valid) {set : SetKey} {name : String}
    {value : Option FormulaKey} {key : DefinitionKey}
    (h : Store.addDefinition set name value s = .ok key s') :
    Touches s s' (.addDefinition set name value) := by
  obtain ⟨_, _, h₀, h⟩ := bind_eq_ok.mp h
  obtain ⟨-, rfl⟩ := setNode_ok h₀
  obtain ⟨_, _, h₁, h⟩ := bind_eq_ok.mp h
  obtain ⟨hdet, rfl⟩ := checkDetachedValue_ok h₁
  obtain ⟨_, s₂, h₂, h⟩ := bind_eq_ok.mp h
  obtain ⟨_, s₃, h₃, h⟩ := bind_eq_ok.mp h
  obtain ⟨_, s₄, h₄, h₅⟩ := bind_eq_ok.mp h
  cases h₅
  have hcreate := insertDefinition_ok hs h₂
  have hattach := forM_setFormulaOwner_ok h₃
  have hlist : Alters s₃ s' [.set set] (Gains (.definition key)) :=
    changeSet_ok h₄ fun node _ => .definition _ node
  refine .addDefinition key hcreate.fresh ?_ (fun v hv => ⟨hdet v hv, ?_⟩) ?_
    fun n hnew hvalue hset => ?_
  · rw [hattach.rest_both hlist (by simp) (by simp), hcreate.created]
  · exact (hattach.changes_left hlist (mem_value hv) (by simp)).congr_left
      (hcreate.rest _ (by simp))
  · exact (hattach.changes_right hlist (by simp) (by simp)).congr_left (hcreate.rest _ (by simp))
  · rw [hattach.rest_both hlist (not_mem_value hvalue) (by simpa using hset),
      hcreate.rest n hnew]

/-! ## Changing definitions -/

lemma renameDefinition_touches {d : DefinitionKey} {name : String}
    (h : Store.renameDefinition d name s = .ok () s') :
    Touches s s' (.renameDefinition d name) := by
  obtain ⟨_, _, h₀, h⟩ := bind_eq_ok.mp h
  obtain ⟨-, rfl⟩ := definitionNode_ok h₀
  have hrename : Alters s s' [.definition d] (Renamed name) :=
    changeDefinition_ok h fun node _ => .mk node
  exact .renameDefinition (hrename.changes _ (by simp))
    fun n hn => hrename.rest n (by simpa using hn)

lemma setValue_touches (hs : s.Sound) {d : DefinitionKey} {value old : Option FormulaKey}
    (h : Store.setValue d value s = .ok old s') : Touches s s' (.setValue d value) := by
  obtain ⟨node, _, h₀, h⟩ := bind_eq_ok.mp h
  obtain ⟨hnode, rfl⟩ := definitionNode_ok h₀
  obtain ⟨_, _, h₁, h⟩ := bind_eq_ok.mp h
  obtain ⟨hdet, rfl⟩ := checkDetachedValue_ok h₁
  obtain ⟨_, s₂, h₂, h⟩ := bind_eq_ok.mp h
  obtain ⟨_, s₃, h₃, h⟩ := bind_eq_ok.mp h
  obtain ⟨_, s₄, h₄, h₅⟩ := bind_eq_ok.mp h
  cases h₅
  have hrebind : Alters s s₂ [.definition d] (Rebound value) :=
    changeDefinition_ok h₂ fun node _ => .mk node
  have hdetach := forM_setFormulaOwner_ok h₃
  have hattach := forM_setFormulaOwner_ok h₄
  -- the old value has an owner and the new one has none, so they are not the same
  have hother : ∀ v ∈ node.value, value.map NodeKey.formula ≠ some (.formula v) := by
    intro v hv heq
    obtain ⟨w, hw, hwv⟩ := Option.map_eq_some_iff.mp heq
    cases hwv
    have howner := (hdet v hw).2.1
    rw [hs.owner_value hnode hv] at howner
    cases howner
  have hfirst : ∀ {n : NodeKey}, n ∉ node.value.toList.map NodeKey.formula → n ≠ .definition d →
      s₃.content? n = s.content? n := fun hn hd =>
    hrebind.rest_both hdetach (by simpa using hd) hn
  refine .setValue node hnode ?_ (fun v hv => ?_) (fun v hv => ⟨hdet v hv, ?_⟩)
    fun n hd hold hnew => ?_
  · exact (hrebind.changes_left hdetach (by simp) (by simp)).congr_right
      (hattach.rest _ (by simp))
  · exact (hrebind.changes_right hdetach (by simp) (mem_value hv)).congr_right
      (hattach.rest _ (not_mem_value (hother v hv)))
  · refine (hattach.changes _ (mem_value hv)).congr_left (hfirst (fun hmem => ?_) (by simp))
    have hold : v ∈ node.value := by simpa using hmem
    exact hother v hold (by rw [Option.mem_def.mp hv, Option.map_some])
  · rw [hattach.rest n (not_mem_value hnew), hfirst (not_mem_value hold) hd]

/-! ## No node owns itself -/

/-- No node is listed by itself. -/
def Ties.Irreflexive (t : Ties) : Prop := ∀ n, t.owner n ≠ some n

namespace Ties

variable {t : Ties} {n o : NodeKey}

lemma Acyclic.irreflexive (h : t.Acyclic) : t.Irreflexive := fun n hn =>
  (h n).not_climbs n hn .refl

lemma Irreflexive.of_owner {t' : Ties} (h : t.Irreflexive)
    (hstep : ∀ m, t'.owner m = t.owner m ∨ t'.owner m ≠ some m) : t'.Irreflexive := by
  intro m hm
  rcases hstep m with heq | hne
  · exact h m (heq ▸ hm)
  · exact hne hm

lemma Irreflexive.adopt (h : t.Irreflexive) {ns : List NodeKey} (hns : ∀ m ∈ ns, (t m).isSome) :
    (t.adopt n ns).Irreflexive := by
  refine h.of_owner fun m => ?_
  rw [owner_adopt hns]
  by_cases hm : m = n
  · simp [hm]
  · by_cases hmem : m ∈ ns
    · exact .inr (by simp [hm, hmem, Ne.symm hm])
    · exact .inl (by simp [hm, hmem])

lemma Irreflexive.attach (h : t.Irreflexive) (hn : (t n).isSome) (hne : n ≠ o)
    (ns : List NodeKey) : (t.attach n o ns).Irreflexive := by
  refine h.of_owner fun m => ?_
  rw [owner_attach hn]
  by_cases hm : m = n
  · exact .inr (by simp [hm, hne.symm])
  · exact .inl (by simp [hm])

lemma Irreflexive.unlink (h : t.Irreflexive) (n : NodeKey) : (t.unlink n).Irreflexive := by
  refine h.of_owner fun m => ?_
  rw [owner_unlink]
  by_cases hm : m = n <;> simp [hm]

lemma Irreflexive.withoutBelow (h : t.Irreflexive) (n : NodeKey) :
    (t.withoutBelow n).Irreflexive := by
  classical
  refine h.of_owner fun m => ?_
  rw [Ties.withoutBelow, owner_erase]
  by_cases hm : t.Below n m <;> simp [hm]

lemma Irreflexive.attachValue (h : t.Irreflexive) {d : DefinitionKey} {value : Option FormulaKey}
    (hvalue : ∀ v ∈ value, (t (.formula v)).isSome) : (t.attachValue d value).Irreflexive := by
  cases value with
  | none => exact h
  | some v => exact h.attach (hvalue v rfl) (by simp) _

lemma Irreflexive.detachValue (h : t.Irreflexive) {d : DefinitionKey} {value : Option FormulaKey}
    (hvalue : ∀ v ∈ value, t.owner (.formula v) = some (.definition d)) :
    (t.detachValue d value).Irreflexive := by
  cases value with
  | none => exact h
  | some v =>
    have hunlink := h.unlink (.formula v)
    rwa [Ties.unlink, hvalue v rfl] at hunlink

end Ties

lemma Effect.irreflexive (hs : s.Sound) (h : s.ties.Irreflexive) {r : Request} {t : Ties}
    (heffect : Effect s r t) : t.Irreflexive := by
  cases heffect with
  | addFormula hnodup hdet => exact h.adopt fun m hm => (hdet m hm).1
  | addSet => exact h.adopt (by simp)
  | addDefinition hset hdet hperm =>
    refine Ties.Irreflexive.attachValue ?_ fun v hv => ?_
    · exact (h.adopt (by simp)).attach (by simp [Ties.adopt]) (by simp) _
    · simpa [Ties.attach, Ties.adopt] using (hdet v hv).1
  | renameDefinition => exact h
  | setValue hnode hdet =>
    refine (h.detachValue fun v hv => hs.owner_value hnode hv).attachValue fun v hv => ?_
    rw [(hs.detachValue hnode).2.2]
    exact (hdet v hv).1
  | addFloating hset hf hperm => exact h.attach hf.1 (by simp) _
  | detachFormula hf hinto hperm =>
    exact (h.unlink _).attach (by rwa [Ties.isSome_unlink]) (by simp) _
  | removeFormula hf => exact (h.unlink _).withoutBelow _
  | removeDefinition hd => exact (h.unlink _).withoutBelow _

/-- In every store that is reached no node owns itself directly. -/
lemma Reachable.irreflexive (h : s.Reachable) : s.ties.Irreflexive := by
  induction h with
  | empty => exact acyclic_empty.irreflexive
  | read h =>
    obtain ⟨program, -, rfl⟩ := exists_of_ofText h
    exact (acyclic_ofProgram program).irreflexive
  | @after s h r ih =>
    unfold Request.after
    rcases r.refuses_or_effect h.sound with ⟨reason, hr⟩ | ⟨t, heffect, s', hrun, -, -, hties⟩
    · rwa [hr]
    · rw [hrun, hties]
      exact heffect.irreflexive h.sound ih

/-! ## Moving -/

lemma addFloating_ok {set : SetKey} {f : FormulaKey} (h : Store.addFloating set f s = .ok () s') :
    Detached s (.formula f) ∧ ∃ s₁, Alters s s₁ [.set set] (Gains (.formula f)) ∧
      Alters s₁ s' [.formula f] (Reowned (some (.set set))) := by
  obtain ⟨_, _, h₀, h⟩ := bind_eq_ok.mp h
  obtain ⟨-, rfl⟩ := setNode_ok h₀
  obtain ⟨_, _, h₁, h⟩ := bind_eq_ok.mp h
  obtain ⟨hdet, rfl⟩ := checkDetached_ok h₁
  obtain ⟨_, s₂, h₂, h₃⟩ := bind_eq_ok.mp h
  exact ⟨hdet, s₂, changeSet_ok h₂ fun node _ => .floating f node, setFormulaOwner_ok h₃⟩

lemma addFloating_touches {set : SetKey} {f : FormulaKey}
    (h : Store.addFloating set f s = .ok () s') : Touches s s' (.addFloating set f) := by
  obtain ⟨hdet, s₁, hlist, hattach⟩ := addFloating_ok h
  refine .addFloating ⟨hdet, ?_⟩ ?_ fun n hf hset => ?_
  · exact hlist.changes_right hattach (by simp) (by simp)
  · exact hlist.changes_left hattach (by simp) (by simp)
  · exact hlist.rest_both hattach (by simpa using hset) (by simpa using hf)

lemma reowned_of_comp {owner : Option NodeKey} {a c : Content}
    (h : Relation.Comp (Reowned none) (Reowned owner) a c) : Reowned owner a c := by
  obtain ⟨b, hab, hbc⟩ := h
  cases hab with
  | formula _ node =>
    cases hbc
    exact .formula owner node

lemma detachFormula_moves (hs : s.Sound) (hirr : s.ties.Irreflexive) {f : FormulaKey}
    {into : SetKey} (h : Store.detachFormula f into s = .ok () s') : Moves s s' f into := by
  obtain ⟨_, _, h₀, h⟩ := bind_eq_ok.mp h
  obtain ⟨-, rfl⟩ := setNode_ok h₀
  obtain ⟨_, s₂, h₁, h₂⟩ := bind_eq_ok.mp h
  obtain ⟨s₁, hlose, hdetach⟩ := unlink_ok hs h₁
  obtain ⟨-, s₃, hgain, hattach⟩ := addFloating_ok h₂
  -- the owner is another node, so the formula itself only changes its owner
  have howner : .formula f ∉ (s.ties.owner (.formula f)).toList := by
    simpa using hirr (.formula f)
  have hlost : ∀ n, n ≠ .formula f → s₂.content? n = s₁.content? n := fun n hn =>
    hdetach.rest n (by simpa using hn)
  have hjoined : ∀ n, n ≠ .formula f → s'.content? n = s₃.content? n := fun n hn =>
    hattach.rest n (by simpa using hn)
  have hgained : ∀ n, n ≠ .set into → s₃.content? n = s₂.content? n := fun n hn =>
    hgain.rest n (by simpa using hn)
  have hset := hgain.changes (.set into) (by simp)
  refine ⟨?_, fun o ho hne => ?_, fun hne => ?_, fun heq => ?_, fun n hf ho hinto => ?_⟩
  · have hout := (hdetach.changes (.formula f) (by simp)).congr_left (hlose.rest _ howner)
    have hin := (hattach.changes (.formula f) (by simp)).congr_left (hgained _ (by simp))
    exact (hout.comp hin).mono fun a c hac => reowned_of_comp hac
  · have hof : o ≠ .formula f := by
      rintro rfl
      exact hirr _ ho
    refine (hlose.changes o (by simp [ho])).congr_right ?_
    rw [hjoined o hof, hgained o hne, hlost o hof]
  · refine (hset.congr_left ?_).congr_right (hjoined _ (by simp))
    rw [hlost _ (by simp), hlose.rest _ (by simpa using hne)]
  · have hin := (hset.congr_left (hlost _ (by simp))).congr_right (hjoined _ (by simp))
    exact (hlose.changes (.set into) (by simp [heq])).comp hin
  · rw [hjoined n hf, hgained n hinto, hlost n hf, hlose.rest n (by simpa using ho)]

/-! ## Removing -/

/-- What is below a node stays below it if only that node is taken off a row. -/
lemma Ties.below_iff_of_owned {t t' : Ties} {n : NodeKey}
    (h : ∀ a b, b ∈ t'.owned a ↔ b ≠ n ∧ b ∈ t.owned a) (m : NodeKey) :
    t'.Below n m ↔ t.Below n m := by
  constructor
  · exact fun hbelow => Relation.ReflTransGen.mono (fun a b hab => ((h a b).mp hab).2) _ _ hbelow
  · intro hbelow
    induction hbelow with
    | refl => exact .refl
    | @tail a b _ hab ih =>
      by_cases hb : b = n
      · rw [hb]
        exact .refl
      · exact ih.tail ((h a b).mpr ⟨hb, hab⟩)

lemma Ties.Consistent.mem_owned_unlink {t : Ties} {root : NodeKey} (h : t.Consistent root)
    (n a b : NodeKey) : b ∈ (t.unlink n).owned a ↔ b ≠ n ∧ b ∈ t.owned a := by
  rw [(h.unlink n).mem_owned_iff, owner_unlink, h.mem_owned_iff]
  by_cases hb : b = n <;> simp [hb]

/-- What is below a node exists. -/
lemma Sound.live_of_below (hs : s.Sound) {n m : NodeKey} (hn : (s.content? n).isSome)
    (h : s.ties.Below n m) : (s.content? m).isSome := by
  rw [isSome_content?] at hn ⊢
  rcases Relation.ReflTransGen.cases_tail h with rfl | ⟨o, -, hmem⟩
  · exact hn
  · exact Ties.isSome_of_owner ((hs.consistent.mem_owned_iff o m).mp hmem)

/-- Removing a node that its owner does not list any more. -/
lemma removes_of_free {s₁ s₂ : Store} {n : NodeKey} (hs : s.Sound) (hn : (s.content? n).isSome)
    (hlose : Alters s s₁ (s.ties.owner n).toList (Loses n))
    (hrest : ∀ m, m ≠ n → s₂.content? m = s₁.content? m) (hvalid : s₂.Valid)
    (hbelow : ∀ m, s₂.ties.Below n m ↔ s.ties.Below n m) : Removes s (s₂.free [n]) n := by
  obtain ⟨hgone, hkept⟩ := content?_free_singleton hvalid n
  have hother : ∀ m, ¬ s.ties.Below n m → (s₂.free [n]).content? m = s₁.content? m := by
    intro m hm
    have hne : m ≠ n := by
      rintro rfl
      exact hm .refl
    rw [hkept m ((hbelow m).not.mpr hm), hrest m hne]
  refine ⟨fun m hm => hs.live_of_below hn hm, fun m hm => hgone m ((hbelow m).mpr hm),
    fun o ho hm => ?_, fun m hm ho => ?_⟩
  · exact (hlose.changes o (by simp [ho])).congr_right (hother o hm)
  · rw [hother m hm, hlose.rest m (by simpa using ho)]

lemma removeFormula_removes (hs : s.Sound) {f : FormulaKey}
    (h : Store.removeFormula f s = .ok () s') : Removes s s' (.formula f) := by
  obtain ⟨_, s₂, h₁, h₂⟩ := bind_eq_ok.mp h
  cases h₂
  obtain ⟨s₁, hlose, hdetach⟩ := unlink_ok hs h₁
  obtain ⟨hlive, s₂', hrun, hvalid, -, hties⟩ := (unlink_cases hs f).resolve_left
    fun hr => hr.ne_ok _ _ h₁
  obtain rfl : s₂' = s₂ := by
    rw [hrun] at h₁
    cases h₁
    rfl
  refine removes_of_free hs (by rwa [isSome_content?]) hlose
    (fun m hm => hdetach.rest m (by simpa using hm)) hvalid fun m => ?_
  rw [hties]
  exact Ties.below_iff_of_owned (hs.consistent.mem_owned_unlink _) m

lemma removeDefinition_removes (hs : s.Sound) {d : DefinitionKey}
    (h : Store.removeDefinition d s = .ok () s') : Removes s s' (.definition d) := by
  obtain ⟨node, _, h₀, h⟩ := bind_eq_ok.mp h
  obtain ⟨hnode, rfl⟩ := definitionNode_ok h₀
  obtain ⟨_, s₁, h₁, h₂⟩ := bind_eq_ok.mp h
  cases h₂
  have hlive : (s.content? (.definition d)).isSome := by simp [content?_definition hnode]
  have howner := owner_definition hnode
  cases hown : node.owner with
  | none =>
    rw [hown] at h₁ howner
    cases h₁
    exact removes_of_free hs hlive (by rw [howner]; exact alters_nil rfl) (fun m _ => rfl)
      hs.valid fun m => Iff.rfl
  | some key =>
    rw [hown] at h₁ howner
    cases h₁
    have hmem := (hs.consistent.mem_owned_iff _ _).mpr howner
    have hnodup := hs.consistent.nodup (.set key)
    obtain ⟨owner, hget⟩ := isSome_ties_set.mp (Ties.isSome_of_mem_owned hmem)
    rw [owned_set hget, SetNode.owned] at hmem hnodup
    refine removes_of_free hs hlive ?_ (fun m _ => rfl) (hs.valid.modifySet key _) fun m => ?_
    · rw [howner]
      refine alters_modifySet hget ?_
      have hd : d ∈ owner.definitions := by simpa using hmem
      obtain ⟨definitions, floating, o⟩ := owner
      obtain ⟨before, after, rfl, hfilter⟩ :=
        exists_filter_ne (List.Nodup.of_map _ hnodup.of_append_left) hd
      simp only [hfilter]
      exact .definition d before after ⟨[], floating, o⟩
    · rw [ties_unlistDefinition hget d]
      refine Ties.below_iff_of_owned (fun a b => ?_) m
      rw [Ties.owned_setOwned (by simp [ties_set hget])]
      by_cases ha : a = .set key
      · simp [ha, and_comm]
      · -- only its owner lists the definition
        have hne : b ∈ s.ties.owned a → b ≠ .definition d := by
          rintro hb rfl
          rw [hs.consistent.mem_owned_iff, howner, Option.map_some, Option.some.injEq] at hb
          exact ha hb.symm
        simpa [ha] using hne

/-! ## Every request -/

lemma Request.touches_of_edit (hs : s.Sound) (hirr : s.ties.Irreflexive) {r : Request}
    (h : r.edit s = .ok () s') : Touches s s' r := by
  cases r with
  | addFormula shape =>
    obtain ⟨key, s₁, h₁, h₂⟩ := bind_eq_ok.mp h
    cases h₂
    exact addFormula_touches hs.valid h₁
  | addSet =>
    obtain ⟨key, s₁, h₁, h₂⟩ := bind_eq_ok.mp h
    cases h₂
    exact addSet_touches hs.valid h₁
  | addDefinition set name value =>
    obtain ⟨key, s₁, h₁, h₂⟩ := bind_eq_ok.mp h
    cases h₂
    exact addDefinition_touches hs.valid h₁
  | renameDefinition d name => exact renameDefinition_touches h
  | setValue d value =>
    obtain ⟨old, s₁, h₁, h₂⟩ := bind_eq_ok.mp h
    cases h₂
    exact setValue_touches hs h₁
  | addFloating set f => exact addFloating_touches h
  | detachFormula f into => exact .detachFormula (detachFormula_moves hs hirr h)
  | removeFormula f => exact .removeFormula (removeFormula_removes hs h)
  | removeDefinition d => exact .removeDefinition (removeDefinition_removes hs h)

lemma Touches.removes {f : FormulaKey} (h : Touches s s' (.removeFormula f)) :
    Removes s s' (.formula f) := by
  cases h with
  | removeFormula removes => exact removes

lemma Removes.frees {n m : NodeKey} (h : Removes s s' n) (hm : (s.content? m).isSome) :
    s'.content? m = none ↔ s.ties.Below n m := by
  refine ⟨fun hnone => ?_, h.gone m⟩
  by_contra hbelow
  by_cases ho : s.ties.owner n = some m
  · simpa [hnone] using (h.left m ho hbelow).live
  · rw [← h.rest m hbelow ho, hnone] at hm
    cases hm

lemma Moves.live {f : FormulaKey} {into : SetKey} {n : NodeKey} (h : Moves s s' f into)
    (hn : (s.content? n).isSome) : (s'.content? n).isSome := by
  by_cases hf : n = .formula f
  · exact hf ▸ h.moved.live
  by_cases hinto : n = .set into
  · rw [hinto]
    by_cases ho : s.ties.owner (.formula f) = some (.set into)
    · exact (h.rejoined ho).live
    · exact (h.joined ho).live
  by_cases ho : s.ties.owner (.formula f) = some n
  · exact (h.left n ho hinto).live
  · rwa [h.rest n hf ho hinto]

lemma live_of_value {value : Option FormulaKey} {n : NodeKey}
    (hlive : ∀ v ∈ value, (s'.content? (.formula v)).isSome)
    (hn : value.map .formula = some n) : (s'.content? n).isSome := by
  obtain ⟨v, hv, rfl⟩ := Option.map_eq_some_iff.mp hn
  exact hlive v hv

/-- Which nodes a request removes can be seen from what it touches. -/
lemma Touches.frees {r : Request} (h : Touches s s' r) {n : NodeKey}
    (hn : (s.content? n).isSome) : s'.content? n = none ↔ r.Frees s n := by
  -- all requests but the removing ones keep every node
  have hkept (hlive : (s'.content? n).isSome) : s'.content? n = none ↔ False :=
    iff_false_intro fun hnone => by simp [hnone] at hlive
  cases h with
  | @addFormula shape new fresh created attached rest =>
    refine hkept ?_
    by_cases hnew : n = .formula new
    · rw [hnew, created]
      rfl
    by_cases hmem : n ∈ owned shape
    · exact (attached n hmem).2.live
    · rwa [rest n hnew hmem]
  | addSet new fresh created rest =>
    refine hkept ?_
    by_cases hnew : n = .set new
    · rw [hnew, created]
      rfl
    · rwa [rest n hnew]
  | @addDefinition set name value new fresh created attached listed rest =>
    refine hkept ?_
    by_cases hnew : n = .definition new
    · rw [hnew, created]
      rfl
    by_cases hvalue : value.map .formula = some n
    · exact live_of_value (fun v hv => (attached v hv).2.live) hvalue
    by_cases hset : n = .set set
    · exact hset ▸ listed.live
    · rwa [rest n hnew hvalue hset]
  | @renameDefinition d name renamed rest =>
    refine hkept ?_
    by_cases hd : n = .definition d
    · exact hd ▸ renamed.live
    · rwa [rest n hd]
  | @setValue d value node before rebound detached attached rest =>
    refine hkept ?_
    by_cases hd : n = .definition d
    · exact hd ▸ rebound.live
    by_cases hold : node.value.map .formula = some n
    · exact live_of_value (fun v hv => (detached v hv).live) hold
    by_cases hvalue : value.map .formula = some n
    · exact live_of_value (fun v hv => (attached v hv).2.live) hvalue
    · rwa [rest n hd hold hvalue]
  | @addFloating set f attached listed rest =>
    refine hkept ?_
    by_cases hf : n = .formula f
    · exact hf ▸ attached.2.live
    by_cases hset : n = .set set
    · exact hset ▸ listed.live
    · rwa [rest n hf hset]
  | detachFormula moves => exact hkept (moves.live hn)
  | removeFormula removes => exact removes.frees hn
  | removeDefinition removes => exact removes.frees hn

/-- In every store that is reached, a request that goes through touches what it is asked to and
nothing else: removing takes away the node, what is below it and its place in the row of its
owner, the other requests remove nothing and change only the nodes that they create, attach or
take away and the owners of these. -/
theorem Reachable.touches (h : s.Reachable) {r : Request} (hrun : r.edit s = .ok () s') :
    Touches s s' r ∧ s'.root = s.root ∧
      ∀ n, (s.content? n).isSome → (s'.content? n = none ↔ r.Frees s n) := by
  have htouches := r.touches_of_edit h.sound h.irreflexive hrun
  refine ⟨htouches, ?_, fun n hn => htouches.frees hn⟩
  rcases r.refuses_or_effect h.sound with hr | ⟨t, -, s₁, hrun₁, -, hroot, -⟩
  · exact absurd hrun (hr.ne_ok _ _)
  · rw [hrun] at hrun₁
    cases hrun₁
    exact hroot

/-- An item is removed from a list that stands for `x`. -/
theorem item_removed :
    let s := (Request.addDefinition empty.root "x" (some ⟨3, 1⟩)).after
      ((Request.addFormula (.list [⟨1, 1⟩, ⟨2, 1⟩])).after
        ((Request.addFormula (.bool true)).after ((Request.addFormula .null).after empty)))
    let r := Request.removeFormula ⟨1, 1⟩
    s.Reachable ∧ r.edit s = .ok () (r.after s) ∧ Touches s (r.after s) r ∧
      (r.after s).content? (.formula ⟨1, 1⟩) = none ∧
      Changes s (r.after s) (.formula ⟨3, 1⟩) (Loses (.formula ⟨1, 1⟩)) := by
  intro s r
  have hs : s.Reachable := .after (.after (.after (.after .empty _) _) _) _
  have hrun : r.edit s = .ok () (r.after s) := by
    have hok : (r.edit s matches .ok ..) = true := by decide +kernel
    unfold Request.after
    cases h : r.edit s with
    | ok u s' => rfl
    | error e s' => simp [h] at hok
  obtain ⟨htouches, -, hfrees⟩ := Reachable.touches hs hrun
  refine ⟨hs, hrun, htouches, (hfrees _ rfl).mpr .refl, ?_⟩
  refine htouches.removes.left _ rfl fun hbelow => ?_
  -- the item owns nothing, so the list is not below it
  rcases Relation.ReflTransGen.cases_head hbelow with heq | ⟨n, hn, -⟩
  · cases heq
  · cases hn

end Formulary.Store
