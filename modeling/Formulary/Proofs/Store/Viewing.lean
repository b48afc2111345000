/-
# Reading trees back

Reading a tree stops at paths that are longer than the number of nodes.  Below a rooted node no
path is: the nodes that it has met are different, and there are no more nodes than that.  So every
rooted formula and set has a tree below it, and in a store without cycles these are all.
-/
import Mathlib.Data.List.Perm.Subperm
import Formulary.Proofs.Data.Results
import Formulary.Proofs.Formula.Children
import Formulary.Proofs.Store.Acyclic
import Formulary.Proofs.Store.Effects
import Formulary.Store.View

namespace Formulary.Store

variable {s : Store} {root n m p : NodeKey} {as : List NodeKey}

/-! ## The number of nodes -/

lemma Slots.length_entries {kind : NodeKind} {α : Type} (s : Slots kind α) :
    s.entries.length = s.size := by
  have hslots : s.slots.zipIdx.map Prod.fst = s.slots := List.zipIdx_map_fst 0 s.slots
  rw [entries, List.length_filterMap_eq_countP, size, ← hslots, List.countP_map, hslots]
  refine List.countP_congr ?_
  rintro ⟨slot, i⟩ -
  simp

/-- The keys of all nodes. -/
def keys (s : Store) : List NodeKey :=
  s.formulas.entries.map (fun e => .formula e.1) ++
    s.definitions.entries.map (fun e => .definition e.1) ++
    s.sets.entries.map fun e => .set e.1

lemma length_keys : s.keys.length = s.size := by
  simp only [keys, size, List.length_append, List.length_map, Slots.length_entries]

lemma mem_keys_iff : n ∈ s.keys ↔ (s.ties n).isSome := by
  cases n <;>
    simp [keys, Slots.mem_entries_iff, ties, Option.isSome_iff_exists]

/-- Nodes that are all different are not more than there are. -/
lemma length_le_size (hnodup : as.Nodup) (hlive : ∀ a ∈ as, (s.ties a).isSome) :
    as.length ≤ s.size := by
  rw [← length_keys]
  exact (hnodup.subperm fun a ha => mem_keys_iff.mpr (hlive a ha)).length_le

/-! ## Paths downwards -/

/-- A path downwards to `n` has met the nodes in `as`, all of them different. -/
structure Trail (s : Store) (as : List NodeKey) (n : NodeKey) : Prop where
  nodup : as.Nodup
  isSome : ∀ a ∈ as, (s.ties a).isSome
  notMem : n ∉ as
  below : ∀ a ∈ as, s.ties.Below a n

lemma Trail.nil (n : NodeKey) : Trail s [] n := ⟨List.nodup_nil, by simp, by simp, by simp⟩

/-- A path goes on to a node that is owned by a node below its end. -/
lemma Trail.cons (h : Trail s as n) (hc : s.ties.Consistent root) (hroot : s.ties.Rooted m)
    (hn : (s.ties n).isSome) (hp : s.ties.Below n p) (hm : m ∈ s.ties.owned p) :
    Trail s (n :: as) m where
  nodup := List.nodup_cons.mpr ⟨h.notMem, h.nodup⟩
  isSome := by
    intro a ha
    rcases List.mem_cons.mp ha with rfl | ha
    · exact hn
    · exact h.isSome a ha
  notMem := by
    intro hmem
    rcases List.mem_cons.mp hmem with rfl | hmem
    · exact hroot.not_below hc hm hp
    · exact hroot.not_below hc hm ((h.below m hmem).trans hp)
  below := by
    intro a ha
    rcases List.mem_cons.mp ha with rfl | ha
    · exact hp.tail hm
    · exact ((h.below a ha).trans hp).tail hm

/-! ## Reading all parts -/

lemma node?_eq_ok {kind : NodeKind} {α : Type} {slots : Slots kind α} {key : Key kind} {node : α}
    (h : slots.get? key = some node) : node? slots key = .ok node := by
  simp [node?, h]

/-- The first layer of a formula can be changed if all that is below it can. -/
lemma Shape.mapM_eq_ok {ε χ β : Type} {f : FormulaKey → Except ε χ} {g : SetKey → Except ε β}
    {shape : StoredShape} (hf : ∀ key, .formula key ∈ owned shape → ∃ x, f key = .ok x)
    (hg : ∀ key, .set key ∈ owned shape → ∃ x, g key = .ok x) :
    ∃ shape', shape.mapM f g = .ok shape' := by
  cases shape with
  | null => exact ⟨_, rfl⟩
  | bool value => exact ⟨_, rfl⟩
  | number value => exact ⟨_, rfl⟩
  | text value => exact ⟨_, rfl⟩
  | name name => exact ⟨_, rfl⟩
  | matrix value => exact ⟨_, rfl⟩
  | call callee arguments =>
    obtain ⟨x, hx⟩ := hf callee (by simp [owned])
    obtain ⟨xs, hxs⟩ := exists_mapM_eq_ok (f := f) (l := arguments) fun a ha =>
      hf a (by simp [owned, ha])
    exact ⟨.call x xs, by simp only [Shape.mapM, hx, hxs]; rfl⟩
  | list items =>
    obtain ⟨xs, hxs⟩ := exists_mapM_eq_ok (f := f) (l := items) fun a ha =>
      hf a (by simp [owned, ha])
    exact ⟨.list xs, by simp only [Shape.mapM, hxs]; rfl⟩
  | closure parameters body =>
    obtain ⟨x, hx⟩ := hg body (by simp [owned])
    exact ⟨.closure parameters x, by simp only [Shape.mapM, hx]; rfl⟩
  | switch cases =>
    obtain ⟨xs, hxs⟩ := exists_mapM_eq_ok (f := Case.mapM f) (l := cases) fun c hc => by
      -- every part of a case is below the formula
      have hparts : ∀ key ∈ c.parts, ∃ x, f key = .ok x := fun key hkey =>
        hf key (by simp only [owned, List.mem_map, List.mem_flatMap]; exact ⟨key, ⟨c, hc, hkey⟩, rfl⟩)
      cases c with
      | when condition value =>
        obtain ⟨x, hx⟩ := hparts condition (by simp [Case.parts])
        obtain ⟨y, hy⟩ := hparts value (by simp [Case.parts])
        exact ⟨.when x y, by simp only [Case.mapM, hx, hy]; rfl⟩
      | otherwise value =>
        obtain ⟨y, hy⟩ := hparts value (by simp [Case.parts])
        exact ⟨.otherwise y, by simp only [Case.mapM, hy]; rfl⟩
    exact ⟨.switch xs, by simp only [Shape.mapM, hxs]; rfl⟩

/-- What is written of a formula is owned by it. -/
lemma mem_owned_of_written {shape : StoredShape} (h : n ∈ owned shape.written) :
    n ∈ owned shape := by
  cases shape with
  | switch cases =>
    simp only [Shape.written, owned, List.mem_map, List.mem_flatMap] at h ⊢
    obtain ⟨key, ⟨c, hc, hkey⟩, rfl⟩ := h
    exact ⟨key, ⟨c, Case.mem_of_mem_upToOtherwise hc, hkey⟩, rfl⟩
  | _ => exact h

/-- A path downwards has met `as` and come to a rooted node. -/
structure Arrives (s : Store) (as : List NodeKey) (n : NodeKey) : Prop where
  trail : Trail s as n
  live : (s.ties n).isSome
  rooted : s.ties.Rooted n

lemma Arrives.below (h : Arrives s as n) (hc : s.ties.Consistent root) (hp : s.ties.Below n p)
    (hrooted : s.ties.Rooted p) (hm : m ∈ s.ties.owned p) : Arrives s (n :: as) m where
  trail := h.trail.cons hc (hrooted.of_mem_owned hc hm) h.live hp hm
  live := Ties.isSome_of_owner ((hc.mem_owned_iff _ m).mp hm)
  rooted := hrooted.of_mem_owned hc hm

lemma Arrives.part (h : Arrives s as n) (hc : s.ties.Consistent root)
    (hm : m ∈ s.ties.owned n) : Arrives s (n :: as) m :=
  h.below hc .refl h.rooted hm

/-- Such a depth is enough to read what is at the end of a path that has met `as`. -/
structure Readable (s : Store) (extent : Extent) (depth : Nat) (as : List NodeKey) : Prop where
  formula : ∀ key, Arrives s as (.formula key) → ∃ v, s.readFormula extent depth key = .ok v
  set : ∀ key, Arrives s as (.set key) → ∃ v, s.readSet extent depth key = .ok v

lemma readFormula_of_parts (hc : s.ties.Consistent root) {extent : Extent} {depth : Nat}
    {key : FormulaKey} (h : Arrives s as (.formula key))
    (hparts : Readable s extent depth (.formula key :: as)) :
    ∃ v, s.readFormula extent (depth + 1) key = .ok v := by
  obtain ⟨node, hnode⟩ := isSome_ties_formula.mp h.live
  have hpart : ∀ m ∈ owned (if extent = .whole then node.shape else node.shape.written),
      Arrives s (.formula key :: as) m := by
    intro m hm
    refine h.part hc ?_
    rw [owned_formula hnode]
    split at hm
    · exact hm
    · exact mem_owned_of_written hm
  obtain ⟨shape, hshape⟩ := Shape.mapM_eq_ok
    (f := s.readFormula extent depth) (g := s.readSet extent depth)
    (fun k hk => hparts.formula k (hpart _ hk)) (fun k hk => hparts.set k (hpart _ hk))
  refine ⟨.node key shape, ?_⟩
  rw [readFormula, node?_eq_ok hnode]
  simp only [ok_bind, hshape]
  rfl

/-- The value of a definition is the next formula on a path that goes through the definition. -/
lemma readDefinition_of_parts (hc : s.ties.Consistent root) {extent : Extent} {depth : Nat}
    {key : SetKey} (h : Arrives s as (.set key))
    (hparts : Readable s extent depth (.set key :: as)) {d : DefinitionKey}
    (hd : .definition d ∈ s.ties.owned (.set key)) :
    ∃ v, (do
      let definition ← node? s.definitions d
      let value ← definition.value.mapM (s.readFormula extent depth)
      return .node d definition.name value : Except NoView DefinitionView) = .ok v := by
  obtain ⟨definition, hdef⟩ := isSome_ties_definition.mp
    (Ties.isSome_of_owner ((hc.mem_owned_iff _ _).mp hd))
  simp only [node?_eq_ok hdef, ok_bind]
  cases hvalue : definition.value with
  | none => exact ⟨.node d definition.name none, rfl⟩
  | some f =>
    have hf : .formula f ∈ s.ties.owned (.definition d) := by
      simp [owned_definition hdef, DefinitionNode.owned, hvalue]
    have harrives := h.below hc (.single hd) (h.rooted.of_mem_owned hc hd) hf
    obtain ⟨v, hv⟩ := hparts.formula f harrives
    refine ⟨.node d definition.name (some v), ?_⟩
    show ((some <$> s.readFormula extent depth f) >>= _) = _
    rw [hv]
    rfl

lemma readSet_of_parts (hc : s.ties.Consistent root) {extent : Extent} {depth : Nat}
    {key : SetKey} (h : Arrives s as (.set key))
    (hparts : Readable s extent depth (.set key :: as)) :
    ∃ v, s.readSet extent (depth + 1) key = .ok v := by
  obtain ⟨node, hnode⟩ := isSome_ties_set.mp h.live
  obtain ⟨ds, hds⟩ := exists_mapM_eq_ok (l := node.definitions) fun d hd =>
    readDefinition_of_parts hc h hparts (d := d) (by simp [owned_set hnode, SetNode.owned, hd])
  have hfloating : ∀ f ∈ (if extent = .whole then node.floating else []),
      ∃ v, s.readFormula extent depth f = .ok v := by
    intro f hf
    refine hparts.formula f (h.part hc ?_)
    split at hf
    · simp [owned_set hnode, SetNode.owned, hf]
    · cases hf
  obtain ⟨fs, hfs⟩ := exists_mapM_eq_ok hfloating
  refine ⟨.node key ds fs, ?_⟩
  rw [readSet, node?_eq_ok hnode]
  simp only [ok_bind, hds, hfs]
  rfl

/-- A depth is enough if it is left for all nodes that the path has not met. -/
lemma readable (hc : s.ties.Consistent root) (extent : Extent) (depth : Nat)
    (as : List NodeKey) (hlen : s.size < as.length + depth) : Readable s extent depth as := by
  induction depth generalizing as with
  | zero =>
    -- the path has met more nodes than there are
    have habsurd : ∀ n, ¬ Arrives s as n := by
      intro n h
      have := length_le_size h.trail.nodup h.trail.isSome
      omega
    exact ⟨fun key h => absurd h (habsurd _), fun key h => absurd h (habsurd _)⟩
  | succ depth ih =>
    have hparts : ∀ n, Readable s extent depth (n :: as) := fun n =>
      ih (n :: as) (by simp only [List.length_cons]; omega)
    exact ⟨fun key h => readFormula_of_parts hc h (hparts _),
      fun key h => readSet_of_parts hc h (hparts _)⟩

/-- In a store without cycles every formula has a tree below it. -/
theorem exists_viewFormula (hc : s.ties.Consistent root) (hac : s.ties.Acyclic)
    (extent : Extent) {key : FormulaKey} (h : (s.ties (.formula key)).isSome) :
    ∃ v, s.viewFormula extent key = .ok v :=
  (readable hc extent (s.size + 1) [] (by simp)).formula key ⟨.nil _, h, hac _⟩

/-- In a store without cycles every set has a tree below it. -/
theorem exists_viewSet (hc : s.ties.Consistent root) (hac : s.ties.Acyclic)
    (extent : Extent) {key : SetKey} (h : (s.ties (.set key)).isSome) :
    ∃ v, s.viewSet extent key = .ok v :=
  (readable hc extent (s.size + 1) [] (by simp)).set key ⟨.nil _, h, hac _⟩

/-- The root has a tree below it, whatever cycles there are elsewhere. -/
theorem exists_view (hc : s.ties.Consistent (.set s.root)) (extent : Extent) :
    ∃ v, s.view extent = .ok v :=
  (readable hc extent (s.size + 1) [] (by simp)).set s.root
    ⟨.nil _, hc.root_isSome, .detached hc.owner_root⟩

end Formulary.Store
