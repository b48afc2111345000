/-
# Visiting a program

Writing a program and taking its snapshot go down from the root, from every node to those that it
owns.  In a store in order they come across nodes that exist and across no node twice, however
nodes were nested elsewhere: the way up from a node is the only one, and the way up from the
nodes below the root ends there.
-/
import Mathlib.Data.List.Flatten
import Formulary.Proofs.Store.Ownership
import Formulary.Proofs.Store.Writing

namespace Formulary

open Store

/-! ## The nodes in a view -/

mutual

/-- The nodes that a formula was read from, in the order in which they were read. -/
def Formula.nodes : FormulaView → List NodeKey
  | .node key shape => .formula key :: Shape.nodes shape

/-- The nodes below a first layer. -/
def Shape.nodes : Shape FormulaView SetView → List NodeKey
  | .call callee arguments => callee.nodes ++ Formula.allNodes arguments
  | .list items => Formula.allNodes items
  | .closure _ body => body.nodes
  | .switch cases => Case.allNodes cases
  | .null | .bool _ | .number _ | .text _ | .name _ | .matrix _ => []

/-- The nodes of formulas, in their order. -/
def Formula.allNodes : List FormulaView → List NodeKey
  | [] => []
  | f :: fs => f.nodes ++ Formula.allNodes fs

/-- The nodes of cases, the condition of a case first. -/
def Case.allNodes : List (Case FormulaView) → List NodeKey
  | [] => []
  | .when condition value :: cases => condition.nodes ++ (value.nodes ++ Case.allNodes cases)
  | .otherwise value :: cases => value.nodes ++ Case.allNodes cases

/-- The nodes of definitions, in their order. -/
def Definition.allNodes : List DefinitionView → List NodeKey
  | [] => []
  | .node key _ none :: ds => .definition key :: Definition.allNodes ds
  | .node key _ (some value) :: ds => .definition key :: (value.nodes ++ Definition.allNodes ds)

/-- The nodes that a set was read from, its definitions first. -/
def DefinitionSet.nodes : SetView → List NodeKey
  | .node key ds floating => .set key :: (Definition.allNodes ds ++ Formula.allNodes floating)

end

namespace Store

variable {s : Store} {t : Ties} {root n m : NodeKey} {next next' : NodeKey → List NodeKey}
  {roots roots' ns ms : List NodeKey}

/-! ## Visits -/

/-- Going to the nodes `roots` one after the other, and from each node to those next below it
before going on, comes across the nodes `ns`. -/
inductive Visits (next : NodeKey → List NodeKey) : List NodeKey → List NodeKey → Prop
  | nil : Visits next [] []
  | cons {n : NodeKey} {roots ns ms : List NodeKey} (hn : Visits next (next n) ns)
      (h : Visits next roots ms) : Visits next (n :: roots) (n :: (ns ++ ms))

lemma Visits.append (h : Visits next roots ns) (h' : Visits next roots' ms) :
    Visits next (roots ++ roots') (ns ++ ms) := by
  induction h with
  | nil => exact h'
  | cons hn _ _ ih =>
    have := Visits.cons hn ih
    rwa [← List.append_assoc] at this

lemma Visits.single (h : Visits next (next n) ns) : Visits next [n] (n :: ns) := by
  simpa using Visits.cons h .nil

lemma Visits.roots_subset (h : Visits next roots ns) : roots ⊆ ns := by
  induction h with
  | nil => exact List.Subset.refl _
  | cons _ _ _ ih =>
    exact List.cons_subset_cons _ (List.Subset.trans ih (List.subset_append_right _ _))

/-- With every node the nodes next below it are visited. -/
lemma Visits.next_subset (h : Visits next roots ns) (hm : m ∈ ns) : next m ⊆ ns := by
  induction h with
  | nil => cases hm
  | @cons n roots ns ms hn _ ihn ih =>
    have hleft : ns ⊆ n :: (ns ++ ms) := by simp
    have hright : ms ⊆ n :: (ns ++ ms) := by simp
    rcases List.mem_cons.mp hm with rfl | hm
    · exact List.Subset.trans hn.roots_subset hleft
    · rcases List.mem_append.mp hm with hm | hm
      · exact List.Subset.trans (ihn hm) hleft
      · exact List.Subset.trans (ih hm) hright

/-- The nodes visited are the roots and all that is below them. -/
lemma Visits.mem_iff (h : Visits t.owned roots ns) : m ∈ ns ↔ ∃ r ∈ roots, t.Below r m := by
  constructor
  · intro hm
    induction h with
    | nil => cases hm
    | @cons n roots ns ms _ _ ihn ih =>
      rcases List.mem_cons.mp hm with rfl | hm
      · exact ⟨m, by simp, .refl⟩
      · rcases List.mem_append.mp hm with hm | hm
        · obtain ⟨r, hr, hbelow⟩ := ihn hm
          exact ⟨n, by simp, Relation.ReflTransGen.head hr hbelow⟩
        · obtain ⟨r, hr, hbelow⟩ := ih hm
          exact ⟨r, by simp [hr], hbelow⟩
  · rintro ⟨r, hr, hbelow⟩
    induction hbelow with
    | refl => exact h.roots_subset hr
    | tail _ hab ih => exact h.next_subset ih hab

/-- If less comes next, the same nodes without some of them are visited. -/
lemma Visits.sublist (h : Visits next roots ns) (h' : Visits next' roots' ms)
    (hnext : ∀ n, (next' n).Sublist (next n)) (hroots : roots'.Sublist roots) :
    ms.Sublist ns := by
  induction h generalizing roots' ms with
  | nil =>
    obtain rfl := List.sublist_nil.mp hroots
    cases h'
    exact List.Sublist.refl _
  | @cons n roots ns ms₀ _ _ ihn ih =>
    cases hroots with
    | cons _ hroots =>
      exact ((ih h' hroots).trans (List.sublist_append_right _ _)).cons _
    | cons_cons _ hroots =>
      cases h' with
      | cons hn' h' => exact ((ihn hn' (hnext n)).append (ih h' hroots)).cons_cons _

/-! ## No node is visited twice -/

/-- Of two nodes on the way up from one node, one is below the other. -/
lemma Ties.Consistent.below_total (hc : t.Consistent root) {a b : NodeKey} (ha : t.Below a m)
    (hb : t.Below b m) : t.Below a b ∨ t.Below b a := by
  induction ha with
  | refl => exact .inr hb
  | @tail p m ha hm ih =>
    rcases Relation.ReflTransGen.cases_tail hb with rfl | ⟨q, hq, hqm⟩
    · exact .inl (ha.tail hm)
    · have hp := (hc.mem_owned_iff p m).mp hm
      rw [(hc.mem_owned_iff q m).mp hqm] at hp
      cases hp
      exact ih hq

/-- Different nodes of one owner are not below each other. -/
lemma Ties.Rooted.not_below_sibling (hc : t.Consistent root) {o a b : NodeKey}
    (hroot : t.Rooted a) (ha : a ∈ t.owned o) (hb : b ∈ t.owned o) (hab : a ≠ b) :
    ¬ t.Below a b := by
  intro h
  rcases Relation.ReflTransGen.cases_tail h with heq | ⟨q, hq, hqb⟩
  · exact hab heq.symm
  · have ho := (hc.mem_owned_iff o b).mp hb
    rw [(hc.mem_owned_iff q b).mp hqb] at ho
    cases ho
    exact hroot.not_below hc ha hq

/-- Rooted nodes of which none is below another one are visited without meeting a node twice. -/
lemma Visits.nodup (hc : t.Consistent root) (h : Visits t.owned roots ns)
    (hrooted : ∀ r ∈ roots, t.Rooted r) (hnodup : roots.Nodup)
    (hapart : ∀ a ∈ roots, ∀ b ∈ roots, a ≠ b → ¬ t.Below a b) : ns.Nodup := by
  induction h with
  | nil => exact List.nodup_nil
  | @cons n roots ns ms hn hrest ihn ih =>
    have hrootn := hrooted n (by simp)
    have hinner : ns.Nodup := by
      refine ihn (fun r hr => hrootn.of_mem_owned hc hr) (hc.nodup n) ?_
      intro a ha b hb hab
      exact (hrootn.of_mem_owned hc ha).not_below_sibling hc ha hb hab
    obtain ⟨hnot, hnodup⟩ := List.nodup_cons.mp hnodup
    have hother : ms.Nodup :=
      ih (fun r hr => hrooted r (by simp [hr])) hnodup
        fun a ha b hb => hapart a (by simp [ha]) b (by simp [hb])
    -- a node below `n` that is also below another root puts one of the two below the other
    have hcross : ∀ m ∈ ms, ¬ t.Below n m := by
      intro m hm hbelow
      obtain ⟨r, hr, hrm⟩ := hrest.mem_iff.mp hm
      have hne : n ≠ r := fun heq => hnot (heq ▸ hr)
      rcases hc.below_total hbelow hrm with h | h
      · exact hapart n (by simp) r (by simp [hr]) hne h
      · exact hapart r (by simp [hr]) n (by simp) hne.symm h
    have hbelow : ∀ m ∈ ns, ∃ r ∈ t.owned n, t.Below r m := fun m hm => hn.mem_iff.mp hm
    refine List.nodup_cons.mpr ⟨fun hmem => ?_, hinner.append hother fun m hm hm' => ?_⟩
    · rcases List.mem_append.mp hmem with hmem | hmem
      · obtain ⟨r, hr, hrn⟩ := hbelow n hmem
        exact (hrootn.of_mem_owned hc hr).not_below hc hr hrn
      · exact hcross n hmem .refl
    · obtain ⟨r, hr, hrm⟩ := hbelow m hm
      exact hcross m hm' (Relation.ReflTransGen.head hr hrm)

/-! ## Views are visits -/

/-- The nodes that reading goes on to from a node. -/
def shown (s : Store) (extent : Extent) : NodeKey → List NodeKey
  | .formula key => (s.formulas.get? key).elim [] fun node => owned (extent.shape node.shape)
  | .definition key => (s.definitions.get? key).elim [] DefinitionNode.owned
  | .set key => (s.sets.get? key).elim [] fun node =>
    node.definitions.map .definition ++ (if extent = .whole then node.floating else []).map .formula

lemma shown_whole (s : Store) : s.shown .whole = s.ties.owned := by
  funext n
  cases n with
  | formula key =>
    cases h : s.formulas.get? key <;>
      simp [shown, Ties.owned, ties, h, FormulaNode.tie, Extent.shape]
  | definition key =>
    cases h : s.definitions.get? key <;> simp [shown, Ties.owned, ties, h, DefinitionNode.tie]
  | set key =>
    cases h : s.sets.get? key <;>
      simp [shown, Ties.owned, ties, h, SetNode.tie, SetNode.owned]

lemma sublist_upToOtherwise {χ : Type} (cases : List (Case χ)) :
    (Case.upToOtherwise cases).Sublist cases := by
  induction cases with
  | nil => exact List.Sublist.refl _
  | cons c cases ih =>
    cases c with
    | when condition value => exact ih.cons_cons _
    | otherwise value => exact (List.nil_sublist _).cons_cons _

/-- Less is written than there is. -/
lemma shown_written_sublist (s : Store) (n : NodeKey) :
    (s.shown .written n).Sublist (s.shown .whole n) := by
  cases n with
  | formula key =>
    cases h : s.formulas.get? key with
    | none => simp [shown, h]
    | some node =>
      simp only [shown, h, Option.elim_some, Extent.shape, reduceCtorEq, if_false, if_true]
      cases node.shape with
      | switch cases =>
        exact ((sublist_upToOtherwise cases).flatMap _).map _
      | _ => exact List.Sublist.refl _
  | definition key => exact List.Sublist.refl _
  | set key =>
    cases h : s.sets.get? key <;> simp [shown, h]

variable {extent : Extent} {depth : Nat}

lemma visits_allNodes {keys : List FormulaKey} {fs : List FormulaView}
    (h : List.Forall₂ (fun k (f : FormulaView) => Visits next [.formula k] f.nodes) keys fs) :
    Visits next (keys.map .formula) (Formula.allNodes fs) := by
  induction h with
  | nil => exact .nil
  | cons hf _ ih => exact hf.append ih

lemma visits_allNodes_cases {cases : List (Case FormulaKey)} {cs : List (Case FormulaView)}
    (h : List.Forall₂ (Case.Related fun k (f : FormulaView) => Visits next [.formula k] f.nodes)
      cases cs) :
    Visits next ((cases.flatMap Case.parts).map .formula) (Case.allNodes cs) := by
  induction h with
  | nil => exact .nil
  | cons hc _ ih =>
    cases hc with
    | when hcondition hvalue => exact hcondition.append (hvalue.append ih)
    | otherwise hvalue => exact hvalue.append ih

lemma visits_shape {shape : StoredShape} {shape' : Shape FormulaView SetView}
    (h : Shape.Related (fun k (f : FormulaView) => Visits next [.formula k] f.nodes)
      (fun k (set : SetView) => Visits next [.set k] set.nodes) shape shape') :
    Visits next (owned shape) (Shape.nodes shape') := by
  cases h with
  | call hcallee harguments => exact hcallee.append (visits_allNodes harguments)
  | list hitems => exact visits_allNodes hitems
  | closure _ hbody => exact hbody
  | switch hcases => exact visits_allNodes_cases hcases
  | null => exact .nil
  | bool value => exact .nil
  | number value => exact .nil
  | text value => exact .nil
  | name n => exact .nil
  | matrix value => exact .nil

lemma visits_definitions {keys : List DefinitionKey} {ds : List DefinitionView}
    (h : List.Forall₂ (Defines s extent depth) keys ds)
    (hread : ∀ k v, s.readFormula extent depth k = .ok v →
      Visits (s.shown extent) [.formula k] v.nodes) :
    Visits (s.shown extent) (keys.map .definition) (Definition.allNodes ds) := by
  induction h with
  | nil => exact .nil
  | @cons key d keys ds hd _ ih =>
    cases hd with
    | unbound h hvalue =>
      have hnone : Visits (s.shown extent) (s.shown extent (.definition key)) [] := by
        simpa [shown, h, DefinitionNode.owned, hvalue] using Visits.nil
      exact .cons hnone ih
    | @bound node k f h hvalue hf =>
      have hsome : Visits (s.shown extent) (s.shown extent (.definition key)) f.nodes := by
        simpa [shown, h, DefinitionNode.owned, hvalue] using hread k f hf
      exact .cons hsome ih

/-- A view is read by going down from its node. -/
lemma visits_read (s : Store) (extent : Extent) (depth : Nat) :
    (∀ key v, s.readFormula extent depth key = .ok v →
      Visits (s.shown extent) [.formula key] v.nodes) ∧
    ∀ key v, s.readSet extent depth key = .ok v →
      Visits (s.shown extent) [.set key] v.nodes := by
  induction depth with
  | zero =>
    constructor
    · intro key v h
      rw [readFormula] at h
      cases h
    · intro key v h
      rw [readSet] at h
      cases h
  | succ depth ih =>
    obtain ⟨hformula, hset⟩ := ih
    constructor
    · intro key v h
      obtain ⟨node, shape, hnode, rfl, hrelated⟩ := readFormula_eq_ok_iff.mp h
      refine .single ?_
      simpa [shown, hnode] using visits_shape (hrelated.mono hformula hset)
    · intro key v h
      obtain ⟨node, ds, floating, hnode, rfl, hds, hfloating⟩ := readSet_eq_ok_iff.mp h
      refine .single ?_
      simpa [shown, hnode] using
        (visits_definitions hds hformula).append (visits_allNodes (hfloating.imp hformula))

/-! ## The program -/

/-- In every store that is reached the program can be read.  What is read are the nodes below the
root, all of which exist, each of them once and from its owner; the snapshot is taken of this.
Of these nodes, in the same order, those are read that are written. -/
theorem Reachable.program_visited_once (h : s.Reachable) :
    ∃ v w, s.view .whole = .ok v ∧ s.view .written = .ok w ∧
      Visits s.ties.owned [.set s.root] v.nodes ∧ v.nodes.Nodup ∧
      (∀ n, n ∈ v.nodes ↔ s.ties.Below (.set s.root) n) ∧ (∀ n ∈ v.nodes, (s.ties n).isSome) ∧
      w.nodes.Sublist v.nodes ∧
      s.snapshot = .ok v.snapshot ∧ s.write = .ok (Layout.program w) := by
  have hc := h.sound.consistent
  obtain ⟨v, hv⟩ := exists_view hc .whole
  obtain ⟨w, hw⟩ := exists_view hc .written
  -- what is shown of the whole program is what is owned
  have hvisits : Visits s.ties.owned [.set s.root] v.nodes := by
    rw [← shown_whole]
    exact (visits_read s .whole _).2 _ _ hv
  have hwritten : Visits (s.shown .written) [.set s.root] w.nodes :=
    (visits_read s .written _).2 _ _ hw
  have hmem : ∀ n, n ∈ v.nodes ↔ s.ties.Below (.set s.root) n := fun n => by
    simpa using hvisits.mem_iff (m := n)
  refine ⟨v, w, hv, hw, hvisits, ?_, hmem, ?_, ?_, ?_, ?_⟩
  · refine hvisits.nodup hc ?_ (List.nodup_singleton _) ?_
    · intro r hr
      rw [List.mem_singleton.mp hr]
      exact .detached hc.owner_root
    · intro a ha b hb hab
      exact absurd ((List.mem_singleton.mp ha).trans (List.mem_singleton.mp hb).symm) hab
  · intro n hn
    rcases Relation.ReflTransGen.cases_tail ((hmem n).mp hn) with rfl | ⟨o, -, ho⟩
    · exact hc.root_isSome
    · exact Ties.isSome_of_owner ((hc.mem_owned_iff o n).mp ho)
  · refine Visits.sublist hvisits hwritten (fun n => ?_)
      (List.Sublist.refl _)
    rw [← shown_whole]
    exact shown_written_sublist s n
  · rw [snapshot, hv]
    rfl
  · rw [write, hw]
    rfl

/-- A closure was put into its own body, where nothing can be read as a tree.  The program beside
it, a definition of `x` by the absent value, is read all the same. -/
theorem program_beside_cycle :
    let s := (Request.addDefinition empty.root "x" (some ⟨2, 1⟩)).after
      ((Request.addFormula .null).after ((Request.addFloating ⟨2, 1⟩ ⟨1, 1⟩).after
        ((Request.addFormula (.closure [] ⟨2, 1⟩)).after (Request.addSet.after empty))))
    s.Reachable ∧ ¬ s.ties.Rooted (.formula ⟨1, 1⟩) ∧ ∃ v, s.view .whole = .ok v ∧
      v.nodes = [.set empty.root, .definition ⟨1, 1⟩, .formula ⟨2, 1⟩] ∧
      (∀ n, n ∈ v.nodes ↔ s.ties.Below (.set s.root) n) ∧ s.write = .ok "x = null\n" := by
  intro s
  have hs : s.Reachable := .after (.after (.after (.after (.after .empty _) _) _) _) _
  refine ⟨hs, fun hrooted => hrooted.not_climbs (.set ⟨2, 1⟩) rfl (.single rfl), ?_⟩
  obtain ⟨v, w, hv, -, -, -, hmem, -⟩ := hs.program_visited_once
  have hrun : (s.view .whole).toOption.map DefinitionSet.nodes =
      some [.set empty.root, .definition ⟨1, 1⟩, .formula ⟨2, 1⟩] ∧
      s.write.toOption = some "x = null\n" := by
    decide +kernel
  obtain ⟨hnodes, hwrite⟩ := hrun
  rw [hv, Except.toOption, Option.map_some, Option.some.injEq] at hnodes
  refine ⟨v, hv, hnodes, hmem, ?_⟩
  cases hresult : s.write with
  | error e => simp [hresult, Except.toOption] at hwrite
  | ok text =>
    rw [hresult, Except.toOption, Option.some.injEq] at hwrite
    rw [hwrite]

end Store

end Formulary
