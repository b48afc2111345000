/-
# Formulas with other notes

The notes of a formula can be replaced one by one, with all else as it was.  Doing so twice is
doing so once with both replacements, the formula without notes stays the same, and only the
replacements of the notes that the formula has matter.
-/
import Formulary.Proofs.Formula.Bare

namespace Formulary

variable {ε ε' ε'' δ δ' δ'' σ σ' σ'' : Type}

mutual

/-- A formula with its notes replaced. -/
def Formula.mapNotes (p : ε → ε') (q : δ → δ') (r : σ → σ') : Formula ε δ σ → Formula ε' δ' σ'
  | .node note shape => .node (p note) (Shape.mapNotes p q r shape)

/-- A first layer with the notes below it replaced. -/
def Shape.mapNotes (p : ε → ε') (q : δ → δ') (r : σ → σ') :
    Shape (Formula ε δ σ) (DefinitionSet ε δ σ) →
      Shape (Formula ε' δ' σ') (DefinitionSet ε' δ' σ')
  | .null => .null
  | .bool value => .bool value
  | .number value => .number value
  | .text value => .text value
  | .name name => .name name
  | .call callee arguments => .call (callee.mapNotes p q r) (Formula.mapAllNotes p q r arguments)
  | .list items => .list (Formula.mapAllNotes p q r items)
  | .matrix value => .matrix value
  | .closure parameters body => .closure parameters (body.mapNotes p q r)
  | .switch cases => .switch (Case.mapAllNotes p q r cases)

/-- Formulas with their notes replaced. -/
def Formula.mapAllNotes (p : ε → ε') (q : δ → δ') (r : σ → σ') :
    List (Formula ε δ σ) → List (Formula ε' δ' σ')
  | [] => []
  | f :: fs => f.mapNotes p q r :: Formula.mapAllNotes p q r fs

/-- Cases with their notes replaced. -/
def Case.mapAllNotes (p : ε → ε') (q : δ → δ') (r : σ → σ') :
    List (Case (Formula ε δ σ)) → List (Case (Formula ε' δ' σ'))
  | [] => []
  | .when condition value :: cases =>
    .when (condition.mapNotes p q r) (value.mapNotes p q r) :: Case.mapAllNotes p q r cases
  | .otherwise value :: cases => .otherwise (value.mapNotes p q r) :: Case.mapAllNotes p q r cases

/-- Definitions with their notes replaced. -/
def Definition.mapAllNotes (p : ε → ε') (q : δ → δ') (r : σ → σ') :
    List (Definition ε δ σ) → List (Definition ε' δ' σ')
  | [] => []
  | .node note name none :: ds => .node (q note) name none :: Definition.mapAllNotes p q r ds
  | .node note name (some value) :: ds =>
    .node (q note) name (some (value.mapNotes p q r)) :: Definition.mapAllNotes p q r ds

/-- A set with its notes replaced. -/
def DefinitionSet.mapNotes (p : ε → ε') (q : δ → δ') (r : σ → σ') :
    DefinitionSet ε δ σ → DefinitionSet ε' δ' σ'
  | .node note definitions floating =>
    .node (r note) (Definition.mapAllNotes p q r definitions) (Formula.mapAllNotes p q r floating)

end

/-- A definition with its note replaced and its formula changed. -/
def Definition.mapWith (q : δ → δ') (F : Formula ε δ σ → Formula ε' δ' σ') :
    Definition ε δ σ → Definition ε' δ' σ'
  | .node note name value => .node (q note) name (value.map F)

/-- A set with its note and those of its definitions replaced and its formulas changed. -/
def DefinitionSet.mapWith (q : δ → δ') (r : σ → σ') (F : Formula ε δ σ → Formula ε' δ' σ') :
    DefinitionSet ε δ σ → DefinitionSet ε' δ' σ'
  | .node note definitions floating =>
    .node (r note) (definitions.map (Definition.mapWith q F)) (floating.map F)

/-! ## One layer -/

section Layer

variable (p : ε → ε') (q : δ → δ') (r : σ → σ')

/-- A set is the same after two changes that agree on what it holds. -/
lemma DefinitionSet.mapWith_congr {q q' : δ → δ'} {r r' : σ → σ'}
    {F F' : Formula ε δ σ → Formula ε' δ' σ'} {set : DefinitionSet ε δ σ}
    (hset : r set.note = r' set.note) (hdefinitions : ∀ d ∈ set.definitions, q d.note = q' d.note)
    (hF : ∀ f ∈ set.formulas, F f = F' f) : set.mapWith q r F = set.mapWith q' r' F' := by
  obtain ⟨note, ds, floating⟩ := set
  have hds : ds.map (Definition.mapWith q F) = ds.map (Definition.mapWith q' F') := by
    refine List.map_congr_left fun d hd => ?_
    have hnote := hdefinitions d hd
    obtain ⟨note, name, _ | value⟩ := d
    · exact congrArg (Definition.node · name none) hnote
    · have hvalue := hF value (DefinitionSet.mem_formulas_of_value hd rfl)
      rw [Definition.mapWith, Definition.mapWith, Option.map_some, Option.map_some, hvalue,
        show q note = q' note from hnote]
  have hfloating : floating.map F = floating.map F' :=
    List.map_congr_left fun f hf => hF f (DefinitionSet.mem_formulas_of_floating hf)
  rw [DefinitionSet.mapWith, DefinitionSet.mapWith, hds, hfloating,
    show r note = r' note from hset]

lemma DefinitionSet.mapWith_mapWith (q : δ → δ') (r : σ → σ')
    (F : Formula ε δ σ → Formula ε' δ' σ') (q' : δ' → δ'') (r' : σ' → σ'')
    (F' : Formula ε' δ' σ' → Formula ε'' δ'' σ'') (set : DefinitionSet ε δ σ) :
    (set.mapWith q r F).mapWith q' r' F' = set.mapWith (q' ∘ q) (r' ∘ r) (F' ∘ F) := by
  obtain ⟨note, ds, floating⟩ := set
  have hdefinition : Definition.mapWith q' F' ∘ Definition.mapWith q F =
      Definition.mapWith (q' ∘ q) (F' ∘ F) := by
    funext d
    obtain ⟨note, name, _ | value⟩ := d <;> rfl
  simp only [DefinitionSet.mapWith, List.map_map, hdefinition, Function.comp_apply]

lemma Formula.mapAllNotes_eq_map (fs : List (Formula ε δ σ)) :
    Formula.mapAllNotes p q r fs = fs.map (Formula.mapNotes p q r) := by
  induction fs with
  | nil => rw [Formula.mapAllNotes, List.map_nil]
  | cons f fs ih => rw [Formula.mapAllNotes, List.map_cons, ih]

lemma Case.mapAllNotes_eq_map (cs : List (Case (Formula ε δ σ))) :
    Case.mapAllNotes p q r cs = cs.map (Case.map (Formula.mapNotes p q r)) := by
  induction cs with
  | nil => rw [Case.mapAllNotes, List.map_nil]
  | cons c cs ih => cases c <;> rw [Case.mapAllNotes, List.map_cons, ih] <;> rfl

lemma Definition.mapAllNotes_eq_map (ds : List (Definition ε δ σ)) :
    Definition.mapAllNotes p q r ds = ds.map (Definition.mapWith q (Formula.mapNotes p q r)) := by
  induction ds with
  | nil => rw [Definition.mapAllNotes, List.map_nil]
  | cons d ds ih =>
    obtain ⟨note, name, _ | value⟩ := d <;>
      rw [Definition.mapAllNotes, List.map_cons, ih] <;> rfl

lemma Formula.mapNotes_node (note : ε) (s : Shape (Formula ε δ σ) (DefinitionSet ε δ σ)) :
    (Formula.node note s).mapNotes p q r =
      .node (p note) (s.map (Formula.mapNotes p q r) (DefinitionSet.mapNotes p q r)) := by
  rw [Formula.mapNotes]
  cases s with
  | call callee arguments => rw [Shape.mapNotes, Formula.mapAllNotes_eq_map, Shape.map]
  | list items => rw [Shape.mapNotes, Formula.mapAllNotes_eq_map, Shape.map]
  | closure ps body => rw [Shape.mapNotes, Shape.map]
  | switch cases => rw [Shape.mapNotes, Case.mapAllNotes_eq_map, Shape.map]
  | _ => rw [Shape.mapNotes, Shape.map]

lemma DefinitionSet.mapNotes_eq_mapWith (set : DefinitionSet ε δ σ) :
    set.mapNotes p q r = set.mapWith q r (Formula.mapNotes p q r) := by
  obtain ⟨note, ds, floating⟩ := set
  rw [DefinitionSet.mapNotes, Definition.mapAllNotes_eq_map, Formula.mapAllNotes_eq_map]
  rfl

lemma DefinitionSet.bare_eq_mapWith (set : DefinitionSet ε δ σ) :
    set.bare = set.mapWith (fun _ => ()) (fun _ => ()) Formula.bare := by
  obtain ⟨note, ds, floating⟩ := set
  rw [DefinitionSet.bare_node]
  rfl

end Layer

/-! ## Whole formulas -/

/-- Replacing notes twice. -/
theorem Formula.mapNotes_mapNotes (p : ε → ε') (q : δ → δ') (r : σ → σ') (p' : ε' → ε'')
    (q' : δ' → δ'') (r' : σ' → σ'') (f : Formula ε δ σ) :
    (f.mapNotes p q r).mapNotes p' q' r' = f.mapNotes (p' ∘ p) (q' ∘ q) (r' ∘ r) := by
  induction f using Formula.induction with
  | h note shape ih =>
    rw [Formula.mapNotes_node, Formula.mapNotes_node, Formula.mapNotes_node, Shape.map_map]
    refine congrArg (Formula.node _) (Shape.map_congr ih fun ps body hbody => ?_)
    subst hbody
    simp only [Function.comp_apply, DefinitionSet.mapNotes_eq_mapWith,
      DefinitionSet.mapWith_mapWith]
    exact DefinitionSet.mapWith_congr rfl (fun _ _ => rfl) ih

lemma DefinitionSet.mapNotes_mapNotes (p : ε → ε') (q : δ → δ') (r : σ → σ') (p' : ε' → ε'')
    (q' : δ' → δ'') (r' : σ' → σ'') (set : DefinitionSet ε δ σ) :
    (set.mapNotes p q r).mapNotes p' q' r' = set.mapNotes (p' ∘ p) (q' ∘ q) (r' ∘ r) := by
  simp only [DefinitionSet.mapNotes_eq_mapWith, DefinitionSet.mapWith_mapWith]
  exact DefinitionSet.mapWith_congr rfl (fun _ _ => rfl) fun f _ =>
    f.mapNotes_mapNotes p q r p' q' r'

/-- What is left without notes does not depend on them. -/
theorem Formula.bare_mapNotes (p : ε → ε') (q : δ → δ') (r : σ → σ') (f : Formula ε δ σ) :
    (f.mapNotes p q r).bare = f.bare := by
  induction f using Formula.induction with
  | h note shape ih =>
    rw [Formula.mapNotes_node, Formula.bare_node, Formula.bare_node, Shape.map_map]
    refine congrArg (Formula.node _) (Shape.map_congr ih fun ps body hbody => ?_)
    subst hbody
    simp only [Function.comp_apply, DefinitionSet.mapNotes_eq_mapWith,
      DefinitionSet.bare_eq_mapWith, DefinitionSet.mapWith_mapWith]
    exact DefinitionSet.mapWith_congr rfl (fun _ _ => rfl) ih

lemma DefinitionSet.bare_mapNotes (p : ε → ε') (q : δ → δ') (r : σ → σ')
    (set : DefinitionSet ε δ σ) : (set.mapNotes p q r).bare = set.bare := by
  simp only [DefinitionSet.mapNotes_eq_mapWith, DefinitionSet.bare_eq_mapWith,
    DefinitionSet.mapWith_mapWith]
  exact DefinitionSet.mapWith_congr rfl (fun _ _ => rfl) fun f _ => f.bare_mapNotes p q r

end Formulary
