/-
# Formulas with the same text

What is written of a formula depends on its notes no more than on the cases and formulas that are
never written.  Formulas are written the same if their first layers are related by being written
the same, so this goes by what the first layer is.
-/
import Formulary.Proofs.Formula.Related
import Formulary.Proofs.Layout.Restored

namespace Formulary.Layout

variable {ε δ σ ε' δ' σ' : Type} {f : Formula ε δ σ} {g : Formula ε' δ' σ'}

/-- The name that a formula is. -/
def name? : Formula ε δ σ → Option String
  | .node _ (.name n) => some n
  | _ => none

/-- Two formulas have the same text at every depth, and what encloses them cannot tell them
apart. -/
structure Same (f : Formula ε δ σ) (g : Formula ε' δ' σ') : Prop where
  formula_eq : formula f = formula g
  isZero_eq : isZero f = isZero g
  isNumber_eq : isNumber f = isNumber g
  name?_eq : name? f = name? g

/-- Two sets have definitions of the same names that are written the same. -/
def SameSet (a : DefinitionSet ε δ σ) (b : DefinitionSet ε' δ' σ') : Prop :=
  definitionSet a = definitionSet b

/-! ## Calls -/

lemma call_eq (callee : Formula ε δ σ) (args : List (Formula ε δ σ)) (fr : Fragment)
    (frs : List Fragment) : call callee args fr frs =
      match name? callee with
      | some n => callOfName n args frs
      | none => atom s!"({fr.text})({argumentList frs})" := by
  obtain ⟨note, shape⟩ := callee
  cases shape <;> rfl

lemma callOfName_congr {args : List (Formula ε δ σ)} {args' : List (Formula ε' δ' σ')}
    (h : List.Forall₂ Same args args') (n : String) (frs : List Fragment) :
    callOfName n args frs = callOfName n args' frs := by
  cases h with
  | nil => rfl
  | cons hfirst hrest =>
    cases hrest with
    | nil => rfl
    | cons hsecond hmore =>
      cases hmore with
      | nil =>
        match frs with
        | [left, right] =>
          simp only [callOfName, negation, hfirst.isZero_eq, hsecond.isNumber_eq]
        | [] => rfl
        | [_] => rfl
        | _ :: _ :: _ :: _ => rfl
      | cons _ _ => rfl

lemma formulas_congr {fs : List (Formula ε δ σ)} {gs : List (Formula ε' δ' σ')}
    (h : List.Forall₂ Same fs gs) : formulas fs = formulas gs := by
  induction h with
  | nil => rw [formulas, formulas]
  | cons hfirst _ ih => rw [formulas, formulas, hfirst.formula_eq, ih]

lemma caseLines_congr {cs : List (Case (Formula ε δ σ))} {cs' : List (Case (Formula ε' δ' σ'))}
    (h : List.Forall₂ (Case.Related Same) cs cs') : caseLines cs = caseLines cs' := by
  induction h with
  | nil => rw [caseLines, caseLines]
  | cons hc _ ih =>
    cases hc with
    | when hc hv => rw [caseLines, caseLines, hc.formula_eq, hv.formula_eq, ih]
    | otherwise hv => rw [caseLines, caseLines, hv.formula_eq]

/-- Formulas are written the same if what is right below them is. -/
theorem Same.node {s : Shape (Formula ε δ σ) (DefinitionSet ε δ σ)}
    {s' : Shape (Formula ε' δ' σ') (DefinitionSet ε' δ' σ')}
    (h : Shape.Related Same SameSet s s') (note : ε) (note' : ε') :
    Same (.node note s) (.node note' s') := by
  cases h with
  | call hcallee harguments =>
    refine ⟨?_, rfl, rfl, rfl⟩
    rw [formula, formula, shape, shape, formulas_congr harguments, hcallee.formula_eq]
    funext d
    rw [call_eq, call_eq, hcallee.name?_eq]
    split
    · rw [callOfName_congr harguments]
    · rfl
  | list hitems =>
    refine ⟨?_, rfl, rfl, rfl⟩
    rw [formula, formula, shape, shape, formulas_congr hitems]
  | closure parameters hbody =>
    refine ⟨?_, rfl, rfl, rfl⟩
    rw [formula, formula, shape, shape, hbody]
  | switch hcases =>
    refine ⟨?_, rfl, rfl, rfl⟩
    rw [formula, formula, shape, shape, caseLines_congr hcases]
  | null => exact ⟨by rw [formula, formula, shape, shape], rfl, rfl, rfl⟩
  | bool value => exact ⟨by rw [formula, formula, shape, shape], rfl, rfl, rfl⟩
  | number value => exact ⟨by rw [formula, formula, shape, shape], rfl, rfl, rfl⟩
  | text value => exact ⟨by rw [formula, formula, shape, shape], rfl, rfl, rfl⟩
  | name n => exact ⟨by rw [formula, formula, shape, shape], rfl, rfl, rfl⟩
  | matrix value => exact ⟨by rw [formula, formula, shape, shape], rfl, rfl, rfl⟩

/-! ## What is never written -/

lemma Same.trans {ε'' δ'' σ'' : Type} {k : Formula ε'' δ'' σ''} (h : Same f g) (h' : Same g k) :
    Same f k :=
  ⟨h.formula_eq.trans h'.formula_eq, h.isZero_eq.trans h'.isZero_eq,
    h.isNumber_eq.trans h'.isNumber_eq, h.name?_eq.trans h'.name?_eq⟩

/-- The cases after one without a condition are not written. -/
lemma same_written (note : ε) (s : Shape (Formula ε δ σ) (DefinitionSet ε δ σ)) :
    Same (.node note s) (.node note s.written) := by
  cases s with
  | switch cases =>
    refine ⟨?_, rfl, rfl, rfl⟩
    have htwice : Case.upToOtherwise (Case.upToOtherwise cases) = Case.upToOtherwise cases := by
      induction cases with
      | nil => rfl
      | cons c cs ih =>
        cases c with
        | when condition value => rw [Case.upToOtherwise, Case.upToOtherwise, ih]
        | otherwise value => rfl
    have hlines : caseLines cases = caseLines (Case.upToOtherwise cases) := by
      funext d
      rw [caseLines_eq_map, caseLines_eq_map, htwice]
    rw [formula, formula, Shape.written, shape, shape, hlines]
  | _ => exact ⟨rfl, rfl, rfl, rfl⟩

lemma sameSet_node {ν : σ} {ν' : σ'} {ds : List (Definition ε δ σ)}
    {es : List (Definition ε' δ' σ')} (h : List.Forall₂ (fun d e => d.name = e.name ∧
      d.value.map formula = e.value.map formula) ds es) (floating : List (Formula ε δ σ))
    (floating' : List (Formula ε' δ' σ')) :
    SameSet (.node ν ds floating) (.node ν' es floating') := by
  rw [SameSet, definitionSet, definitionSet, definitions_eq_map, definitions_eq_map]
  induction h with
  | nil => rfl
  | cons hd _ ih => rw [List.map_cons, List.map_cons, hd.1, hd.2, ih]

lemma sameSet_bare {set : DefinitionSet ε δ σ} (h : ∀ f ∈ set.formulas, Same f f.bare) :
    SameSet set set.bare := by
  obtain ⟨ν, ds, floating⟩ := set
  rw [DefinitionSet.bare_node]
  refine sameSet_node ?_ _ _
  rw [List.forall₂_map_right_iff, List.forall₂_same]
  intro d hd
  obtain ⟨μ, n, _ | value⟩ := d
  · exact ⟨rfl, rfl⟩
  · refine ⟨rfl, ?_⟩
    have hvalue := h value (DefinitionSet.mem_formulas_of_value hd rfl)
    exact congrArg some hvalue.formula_eq

/-- Notes are not written. -/
theorem same_bare (f : Formula ε δ σ) : Same f f.bare := by
  induction f using Formula.induction with
  | h note s ih =>
    have hrelated : Shape.Related Same SameSet (s.map id id)
        (s.map Formula.bare DefinitionSet.bare) := by
      refine Shape.related_map ih fun ps body hbody => ?_
      subst hbody
      exact sameSet_bare ih
    rw [Shape.map_id] at hrelated
    rw [Formula.bare_node]
    exact Same.node hrelated note ()

/-- A program is written by its definitions. -/
lemma program_congr {a : DefinitionSet ε δ σ} {b : DefinitionSet ε' δ' σ'} (h : SameSet a b) :
    program a = program b := by
  rw [program, program, lines, lines, h]

end Formulary.Layout
