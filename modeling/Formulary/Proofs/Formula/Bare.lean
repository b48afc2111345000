/-
# Formulas without notes

A formula stripped of its notes, with all else as it was.  What is written and what a snapshot
keeps depend on nothing else.
-/
import Mathlib.Tactic.Common
import Formulary.Formula.Snapshot
import Formulary.Layout.Formula
import Formulary.Proofs.Formula.Children

namespace Formulary

variable {ε δ σ : Type}

mutual

/-- A formula without its notes. -/
def Formula.bare : Formula ε δ σ → Formula.Bare
  | .node _ shape => .node () (Shape.bare shape)

/-- A first layer without the notes below it. -/
def Shape.bare :
    Shape (Formula ε δ σ) (DefinitionSet ε δ σ) → Shape Formula.Bare DefinitionSet.Bare
  | .null => .null
  | .bool value => .bool value
  | .number value => .number value
  | .text value => .text value
  | .name name => .name name
  | .call callee arguments => .call callee.bare (Formula.bares arguments)
  | .list items => .list (Formula.bares items)
  | .matrix value => .matrix value
  | .closure parameters body => .closure parameters body.bare
  | .switch cases => .switch (Case.bares cases)

/-- Formulas without their notes. -/
def Formula.bares : List (Formula ε δ σ) → List Formula.Bare
  | [] => []
  | f :: fs => f.bare :: Formula.bares fs

/-- Cases without notes. -/
def Case.bares : List (Case (Formula ε δ σ)) → List (Case Formula.Bare)
  | [] => []
  | .when condition value :: cases => .when condition.bare value.bare :: Case.bares cases
  | .otherwise value :: cases => .otherwise value.bare :: Case.bares cases

/-- Definitions without notes. -/
def Definition.bares : List (Definition ε δ σ) → List Definition.Bare
  | [] => []
  | .node _ name none :: ds => .node () name none :: Definition.bares ds
  | .node _ name (some value) :: ds => .node () name (some value.bare) :: Definition.bares ds

/-- A set without its notes. -/
def DefinitionSet.bare : DefinitionSet ε δ σ → DefinitionSet.Bare
  | .node _ definitions floating =>
    .node () (Definition.bares definitions) (Formula.bares floating)

end

/-! ## One layer -/

section Maps

variable {χ χ' χ'' β β' β'' : Type}

/-- Changes the formulas of a case. -/
def Case.map (f : χ → χ') : Case χ → Case χ'
  | .when condition value => .when (f condition) (f value)
  | .otherwise value => .otherwise (f value)

/-- Changes what is below a first layer. -/
def Shape.map (f : χ → χ') (g : β → β') : Shape χ β → Shape χ' β'
  | .null => .null
  | .bool value => .bool value
  | .number value => .number value
  | .text value => .text value
  | .name n => .name n
  | .call callee arguments => .call (f callee) (arguments.map f)
  | .list items => .list (items.map f)
  | .matrix value => .matrix value
  | .closure parameters body => .closure parameters (g body)
  | .switch cases => .switch (cases.map (Case.map f))

lemma Case.map_map (f : χ → χ') (f' : χ' → χ'') (c : Case χ) :
    (c.map f).map f' = c.map (f' ∘ f) := by
  cases c <;> rfl

lemma Case.map_congr {f f' : χ → χ'} {c : Case χ} (h : ∀ x ∈ c.parts, f x = f' x) :
    c.map f = c.map f' := by
  cases c with
  | when condition value =>
    rw [Case.map, Case.map, h condition (by simp [Case.parts]), h value (by simp [Case.parts])]
  | otherwise value => rw [Case.map, Case.map, h value (by simp [Case.parts])]

lemma Case.upToOtherwise_map (f : χ → χ') (cs : List (Case χ)) :
    Case.upToOtherwise (cs.map (Case.map f)) = (Case.upToOtherwise cs).map (Case.map f) := by
  induction cs with
  | nil => rfl
  | cons c cs ih =>
    cases c with
    | when condition value => rw [List.map_cons, Case.map, Case.upToOtherwise, ih]; rfl
    | otherwise value => rfl

lemma Shape.map_map (f : χ → χ') (g : β → β') (f' : χ' → χ'') (g' : β' → β'') (s : Shape χ β) :
    (s.map f g).map f' g' = s.map (f' ∘ f) (g' ∘ g) := by
  cases s with
  | call callee arguments => simp only [Shape.map, List.map_map, Function.comp_apply]
  | list items => simp only [Shape.map, List.map_map]
  | switch cases =>
    have hcase : Case.map f' ∘ Case.map f = Case.map (f' ∘ f) := funext (Case.map_map f f')
    simp only [Shape.map, List.map_map, hcase]
  | _ => rfl

lemma Shape.map_id (s : Shape χ β) : s.map id id = s := by
  cases s with
  | call callee arguments => simp [Shape.map]
  | list items => simp [Shape.map]
  | switch cases =>
    have hcase : (Case.map id : Case χ → Case χ) = id := by
      funext c
      cases c <;> rfl
    simp [Shape.map, hcase]
  | _ => rfl

end Maps

/-- A definition without notes, its formula changed. -/
def Definition.toBare (f : Formula ε δ σ → Formula.Bare) : Definition ε δ σ → Definition.Bare
  | .node _ name value => .node () name (value.map f)

/-- A case without notes. -/
def Case.bare : Case (Formula ε δ σ) → Case Formula.Bare := Case.map Formula.bare

/-- A definition without notes. -/
def Definition.bare : Definition ε δ σ → Definition.Bare := Definition.toBare Formula.bare

/-- What changes the formulas below a first layer in the same way changes the layer in the same
way. -/
lemma Shape.map_congr {χ β : Type} {f f' : Formula ε δ σ → χ} {g g' : DefinitionSet ε δ σ → β}
    {s : Shape (Formula ε δ σ) (DefinitionSet ε δ σ)} (hf : ∀ x ∈ s.children, f x = f' x)
    (hg : ∀ ps body, s = .closure ps body → g body = g' body) : s.map f g = s.map f' g' := by
  cases s with
  | call callee arguments =>
    rw [Shape.children, List.forall_mem_cons] at hf
    rw [Shape.map, Shape.map, hf.1, List.map_congr_left hf.2]
  | list items =>
    rw [Shape.children] at hf
    rw [Shape.map, Shape.map, List.map_congr_left hf]
  | closure ps body => rw [Shape.map, Shape.map, hg ps body rfl]
  | switch cases =>
    rw [Shape.map, Shape.map]
    refine congrArg Shape.switch (List.map_congr_left fun c hc => Case.map_congr fun x hx => ?_)
    exact hf x (List.mem_flatMap.mpr ⟨c, hc, hx⟩)
  | _ => rfl

lemma DefinitionSet.mem_formulas_of_value {note : σ} {ds : List (Definition ε δ σ)}
    {floating : List (Formula ε δ σ)} {d : Definition ε δ σ} {f : Formula ε δ σ} (hd : d ∈ ds)
    (hf : f ∈ d.value) : f ∈ (DefinitionSet.node note ds floating).formulas := by
  rw [DefinitionSet.formulas, List.mem_append, List.mem_filterMap]
  exact .inl ⟨d, hd, hf⟩

lemma DefinitionSet.mem_formulas_of_floating {note : σ} {ds : List (Definition ε δ σ)}
    {floating : List (Formula ε δ σ)} {f : Formula ε δ σ} (hf : f ∈ floating) :
    f ∈ (DefinitionSet.node note ds floating).formulas := by
  rw [DefinitionSet.formulas, List.mem_append]
  exact .inr hf

/-! ## Without notes -/

lemma Formula.bares_eq_map (fs : List (Formula ε δ σ)) : Formula.bares fs = fs.map Formula.bare := by
  induction fs with
  | nil => rw [Formula.bares, List.map_nil]
  | cons f fs ih => rw [Formula.bares, List.map_cons, ih]

lemma Case.bares_eq_map (cs : List (Case (Formula ε δ σ))) : Case.bares cs = cs.map Case.bare := by
  induction cs with
  | nil => rw [Case.bares, List.map_nil]
  | cons c cs ih => cases c <;> rw [Case.bares, List.map_cons, ih] <;> rfl

lemma Definition.bares_eq_map (ds : List (Definition ε δ σ)) :
    Definition.bares ds = ds.map Definition.bare := by
  induction ds with
  | nil => rw [Definition.bares, List.map_nil]
  | cons d ds ih =>
    obtain ⟨note, name, _ | value⟩ := d <;>
      rw [Definition.bares, List.map_cons, ih] <;> rfl

lemma Formula.bare_node (note : ε) (s : Shape (Formula ε δ σ) (DefinitionSet ε δ σ)) :
    (Formula.node note s).bare = .node () (s.map Formula.bare DefinitionSet.bare) := by
  rw [Formula.bare]
  cases s with
  | call callee arguments => rw [Shape.bare, Formula.bares_eq_map, Shape.map]
  | list items => rw [Shape.bare, Formula.bares_eq_map, Shape.map]
  | closure ps body => rw [Shape.bare, Shape.map]
  | switch cases => rw [Shape.bare, Case.bares_eq_map, Shape.map]; rfl
  | _ => rw [Shape.bare, Shape.map]

lemma DefinitionSet.bare_node (note : σ) (ds : List (Definition ε δ σ))
    (floating : List (Formula ε δ σ)) : (DefinitionSet.node note ds floating).bare =
      .node () (ds.map Definition.bare) (floating.map Formula.bare) := by
  rw [DefinitionSet.bare, Definition.bares_eq_map, Formula.bares_eq_map]

/-! ## Lists of items -/

lemma Formula.matrix?_bare (f : Formula ε δ σ) : f.bare.matrix? = f.matrix? := by
  obtain ⟨note, shape⟩ := f
  cases shape <;> simp only [Formula.bare, Shape.bare, Formula.matrix?]

lemma Formula.ofItems_bare (note : ε) (items : List (Formula ε δ σ)) :
    (Formula.ofItems note items).bare = Formula.ofItems () (items.map Formula.bare) := by
  have hentries : (items.map Formula.bare).mapM Formula.matrix? = items.mapM Formula.matrix? := by
    induction items with
    | nil => rfl
    | cons f fs ih => rw [List.map_cons, List.mapM_cons, List.mapM_cons, ih, Formula.matrix?_bare]
  unfold Formula.ofItems
  rw [hentries]
  cases items.mapM Formula.matrix? with
  | some entries => rw [Formula.bare, Shape.bare]
  | none => rw [Formula.bare, Shape.bare, Formula.bares_eq_map]

end Formulary
