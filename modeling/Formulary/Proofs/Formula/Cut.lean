/-
# Snapshots and what is written of them

Cutting every switch of a snapshot right after its first case without a condition leaves what is
written of it.  A snapshot does not depend on notes, and it holds the snapshots of all formulas of
the formula that it was taken of.
-/
import Formulary.Proofs.Formula.Bare

namespace Formulary

variable {ε δ σ : Type}

mutual

/-- A formula in which every switch ends with its first case without a condition. -/
def Formula.cut : Formula.Bare → Formula.Bare
  | .node _ shape => .node () (Shape.cut shape)

/-- A first layer in which every switch ends with its first case without a condition. -/
def Shape.cut : Shape Formula.Bare DefinitionSet.Bare → Shape Formula.Bare DefinitionSet.Bare
  | .null => .null
  | .bool value => .bool value
  | .number value => .number value
  | .text value => .text value
  | .name n => .name n
  | .call callee arguments => .call callee.cut (Formula.cuts arguments)
  | .list items => .list (Formula.cuts items)
  | .matrix value => .matrix value
  | .closure parameters body => .closure parameters body.cut
  | .switch cases => .switch (Case.cuts cases)

/-- The formulas with their switches cut, one by one. -/
def Formula.cuts : List Formula.Bare → List Formula.Bare
  | [] => []
  | f :: fs => f.cut :: Formula.cuts fs

/-- The cases up to the first one without a condition, with the switches in them cut. -/
def Case.cuts : List (Case Formula.Bare) → List (Case Formula.Bare)
  | [] => []
  | .when condition value :: cases => .when condition.cut value.cut :: Case.cuts cases
  | .otherwise value :: _ => [.otherwise value.cut]

/-- The definitions with the switches in them cut, one by one. -/
def Definition.cuts : List Definition.Bare → List Definition.Bare
  | [] => []
  | .node _ n none :: ds => .node () n none :: Definition.cuts ds
  | .node _ n (some value) :: ds => .node () n (some value.cut) :: Definition.cuts ds

/-- A set in which every switch ends with its first case without a condition. -/
def DefinitionSet.cut : DefinitionSet.Bare → DefinitionSet.Bare
  | .node _ definitions floating => .node () (Definition.cuts definitions) (Formula.cuts floating)

end

/-! ## One by one -/

lemma Formula.cuts_eq_map (fs : List Formula.Bare) : Formula.cuts fs = fs.map Formula.cut := by
  induction fs with
  | nil => rw [Formula.cuts, List.map_nil]
  | cons f fs ih => rw [Formula.cuts, List.map_cons, ih]

lemma Case.cuts_eq_map (cs : List (Case Formula.Bare)) :
    Case.cuts cs = (Case.upToOtherwise cs).map (Case.map Formula.cut) := by
  induction cs with
  | nil => rw [Case.cuts, Case.upToOtherwise, List.map_nil]
  | cons c cs ih =>
    cases c with
    | when condition value => rw [Case.cuts, Case.upToOtherwise, List.map_cons, ih, Case.map]
    | otherwise value => rw [Case.cuts, Case.upToOtherwise, List.map_singleton, Case.map]

lemma Definition.cuts_eq_map (ds : List Definition.Bare) :
    Definition.cuts ds = ds.map (Definition.toBare Formula.cut) := by
  induction ds with
  | nil => rw [Definition.cuts, List.map_nil]
  | cons d ds ih =>
    obtain ⟨note, name, _ | value⟩ := d <;> rw [Definition.cuts, List.map_cons, ih] <;> rfl

lemma Formula.snapshots_eq_map (fs : List (Formula ε δ σ)) :
    Formula.snapshots fs = fs.map Formula.snapshot := by
  induction fs with
  | nil => rw [Formula.snapshots, List.map_nil]
  | cons f fs ih => rw [Formula.snapshots, List.map_cons, ih]

lemma Case.snapshots_eq_map (cs : List (Case (Formula ε δ σ))) :
    Case.snapshots cs = cs.map (Case.map Formula.snapshot) := by
  induction cs with
  | nil => rw [Case.snapshots, List.map_nil]
  | cons c cs ih => cases c <;> rw [Case.snapshots, List.map_cons, ih] <;> rfl

lemma Definition.snapshots_eq_map (ds : List (Definition ε δ σ)) :
    Definition.snapshots ds = ds.map (Definition.toBare Formula.snapshot) := by
  induction ds with
  | nil => rw [Definition.snapshots, List.map_nil]
  | cons d ds ih =>
    obtain ⟨note, name, _ | value⟩ := d <;> rw [Definition.snapshots, List.map_cons, ih] <;> rfl

lemma Formula.cut_node (note : Unit) (s : Shape Formula.Bare DefinitionSet.Bare) :
    (Formula.node note s).cut = .node () (s.written.map Formula.cut DefinitionSet.cut) := by
  rw [Formula.cut]
  cases s with
  | call callee arguments => rw [Shape.cut, Formula.cuts_eq_map, Shape.written, Shape.map]; simp
  | list items => rw [Shape.cut, Formula.cuts_eq_map, Shape.written, Shape.map]; simp
  | closure ps body => rw [Shape.cut, Shape.written, Shape.map]; simp
  | switch cases => rw [Shape.cut, Case.cuts_eq_map, Shape.written, Shape.map]
  | _ => rw [Shape.cut, Shape.written, Shape.map]; all_goals simp

lemma Formula.snapshot_node (note : ε) (s : Shape (Formula ε δ σ) (DefinitionSet ε δ σ)) :
    (Formula.node note s).snapshot = .node () (s.map Formula.snapshot DefinitionSet.snapshot) := by
  rw [Formula.snapshot]
  cases s with
  | call callee arguments => rw [Shape.snapshot, Formula.snapshots_eq_map, Shape.map]
  | list items => rw [Shape.snapshot, Formula.snapshots_eq_map, Shape.map]
  | closure ps body => rw [Shape.snapshot, Shape.map]
  | switch cases => rw [Shape.snapshot, Case.snapshots_eq_map, Shape.map]
  | _ => rw [Shape.snapshot, Shape.map]

/-! ## Sorted definitions -/

/-- The definitions of a set in the order that a snapshot has them in. -/
def DefinitionSet.sorted (set : DefinitionSet ε δ σ) : List (Definition ε δ σ) :=
  set.definitions.mergeSort fun d e => !(decide (e.name < d.name))

/-- Definitions can be sorted before or after their formulas are changed. -/
lemma DefinitionSet.map_sorted (f : Formula ε δ σ → Formula.Bare) (set : DefinitionSet ε δ σ) :
    (set.definitions.map (Definition.toBare f)).mergeSort Definition.namedBefore =
      set.sorted.map (Definition.toBare f) := by
  refine (List.map_mergeSort fun d _ e _ => ?_).symm
  obtain ⟨_, _, _⟩ := d
  obtain ⟨_, _, _⟩ := e
  rfl

lemma DefinitionSet.mem_sorted {set : DefinitionSet ε δ σ} {d : Definition ε δ σ} :
    d ∈ set.sorted ↔ d ∈ set.definitions := List.mem_mergeSort

lemma DefinitionSet.snapshot_eq (set : DefinitionSet ε δ σ) :
    set.snapshot = .node () (set.sorted.map (Definition.toBare Formula.snapshot))
      (set.floating.map Formula.snapshot) := by
  rw [← DefinitionSet.map_sorted]
  obtain ⟨note, ds, floating⟩ := set
  rw [DefinitionSet.snapshot, Definition.snapshots_eq_map, Formula.snapshots_eq_map]
  rfl

/-! ## Snapshots without notes -/

lemma DefinitionSet.snapshot_bare {set : DefinitionSet ε δ σ}
    (h : ∀ f ∈ set.formulas, f.bare.snapshot = f.snapshot) : set.bare.snapshot = set.snapshot := by
  have hfloating : set.bare.floating.map Formula.snapshot = set.floating.map Formula.snapshot := by
    obtain ⟨note, ds, floating⟩ := set
    rw [DefinitionSet.bare_node, DefinitionSet.floating, List.map_map]
    exact List.map_congr_left fun f hf => h f (DefinitionSet.mem_formulas_of_floating hf)
  have hdefinitions : set.bare.definitions.map (Definition.toBare Formula.snapshot) =
      set.definitions.map (Definition.toBare Formula.snapshot) := by
    obtain ⟨note, ds, floating⟩ := set
    rw [DefinitionSet.bare_node, DefinitionSet.definitions, List.map_map]
    refine List.map_congr_left fun d hd => ?_
    obtain ⟨ν, name, _ | value⟩ := d
    · rfl
    · have hvalue := h value (DefinitionSet.mem_formulas_of_value hd rfl)
      show Definition.node () name (some value.bare.snapshot) = .node () name (some value.snapshot)
      rw [hvalue]
  rw [DefinitionSet.snapshot_eq, DefinitionSet.snapshot_eq, ← DefinitionSet.map_sorted,
    ← DefinitionSet.map_sorted, hdefinitions, hfloating]

/-- A snapshot does not depend on notes. -/
theorem Formula.snapshot_bare (f : Formula ε δ σ) : f.bare.snapshot = f.snapshot := by
  induction f using Formula.induction with
  | h note shape ih =>
    rw [Formula.bare_node, Formula.snapshot_node, Formula.snapshot_node, Shape.map_map]
    refine congrArg (Formula.node ()) (Shape.map_congr ih fun ps body hbody => ?_)
    subst hbody
    exact DefinitionSet.snapshot_bare ih

/-! ## What holds throughout a snapshot -/

lemma DefinitionSet.mem_formulas_snapshot {set : DefinitionSet ε δ σ} {g : Formula ε δ σ}
    (h : g ∈ set.formulas) : g.snapshot ∈ set.snapshot.formulas := by
  rw [DefinitionSet.snapshot_eq, DefinitionSet.formulas, List.mem_append]
  obtain ⟨note, ds, floating⟩ := set
  rw [DefinitionSet.formulas, List.mem_append, List.mem_filterMap] at h
  rcases h with ⟨d, hd, hvalue⟩ | h
  · refine .inl (List.mem_filterMap.mpr ⟨_, List.mem_map_of_mem
      (DefinitionSet.mem_sorted.mpr hd), ?_⟩)
    obtain ⟨ν, name, value⟩ := d
    rw [Definition.value] at hvalue
    rw [hvalue]
    rfl
  · exact .inr (List.mem_map_of_mem h)

lemma Shape.mem_children_map {f : Formula ε δ σ → Formula.Bare}
    {g : DefinitionSet ε δ σ → DefinitionSet.Bare} {s : Shape (Formula ε δ σ) (DefinitionSet ε δ σ)}
    {x : Formula ε δ σ} (hg : ∀ set, x ∈ DefinitionSet.formulas set → f x ∈ (g set).formulas)
    (h : x ∈ s.children) : f x ∈ (s.map f g).children := by
  cases s with
  | call callee arguments =>
    have hmem := List.mem_map_of_mem (f := f) h
    exact hmem
  | list items => exact List.mem_map_of_mem h
  | closure ps body => exact hg body h
  | switch cases =>
    obtain ⟨c, hc, hx⟩ := List.mem_flatMap.mp h
    refine List.mem_flatMap.mpr ⟨c.map f, List.mem_map_of_mem hc, ?_⟩
    have hparts : (c.map f).parts = c.parts.map f := by cases c <;> rfl
    rw [hparts]
    exact List.mem_map_of_mem hx
  | _ => cases h

/-- What holds throughout a snapshot holds throughout the formula that it was taken of. -/
lemma Formula.throughout_of_snapshot {P : Formula ε δ σ → Prop} {Q : Formula.Bare → Prop}
    (hPQ : ∀ g : Formula ε δ σ, Q g.snapshot → P g) {f : Formula ε δ σ}
    (h : f.snapshot.Throughout Q) : f.Throughout P := by
  induction f using Formula.induction with
  | h note shape ih =>
    rw [Formula.snapshot_node] at h
    cases h with
    | intro here below =>
      rw [← Formula.snapshot_node note] at here
      exact .intro (hPQ _ here) fun g hg => ih g hg (below _ (Shape.mem_children_map
        (fun set => DefinitionSet.mem_formulas_snapshot) hg))

/-! ## Switches that are whole -/

/-- A switch ends with its first case without a condition. -/
def Formula.Whole : Formula.Bare → Prop
  | .node _ shape => shape.written = shape

lemma DefinitionSet.cut_eq_self {set : DefinitionSet.Bare} (h : ∀ f ∈ set.formulas, f.cut = f) :
    set.cut = set := by
  obtain ⟨note, ds, floating⟩ := set
  have hdefinitions : Definition.cuts ds = ds := by
    rw [Definition.cuts_eq_map]
    conv => rhs; rw [← List.map_id ds]
    refine List.map_congr_left fun d hd => ?_
    obtain ⟨ν, name, _ | value⟩ := d
    · rfl
    · have hvalue := h value (DefinitionSet.mem_formulas_of_value hd rfl)
      rw [Definition.toBare, Option.map_some, hvalue]
      rfl
  have hfloating : Formula.cuts floating = floating := by
    rw [Formula.cuts_eq_map]
    conv => rhs; rw [← List.map_id floating]
    exact List.map_congr_left fun f hf =>
      h f (DefinitionSet.mem_formulas_of_floating hf)
  rw [DefinitionSet.cut, hdefinitions, hfloating]

/-- Where no switch has a case after one without a condition there is nothing to cut. -/
theorem Formula.cut_eq_self {f : Formula.Bare} (h : f.Throughout Formula.Whole) : f.cut = f := by
  induction h with
  | @intro note shape here below ih =>
    have hwritten : shape.written = shape := here
    have hmap : shape.map Formula.cut DefinitionSet.cut = shape.map id id := by
      refine Shape.map_congr ih fun ps body hbody => ?_
      subst hbody
      exact DefinitionSet.cut_eq_self ih
    rw [Formula.cut_node, hwritten, hmap, Shape.map_id]

end Formulary
