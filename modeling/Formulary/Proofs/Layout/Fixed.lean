/-
# Formulas in normal form are written alike again

The formula that the text of a formula in normal form says has that same text.  The only thing
about it that writing changes is the sign of a zero in front of a minus, which is not written.
-/
import Formulary.Proofs.Formula.Faithful
import Formulary.Proofs.Layout.Same

namespace Formulary.Layout

variable {ε δ σ : Type}

/-- A call that is written as a minus in front of an operand. -/
lemma formula_negation {note ν : ε} {n : String} {first second : Formula ε δ σ}
    (h : Formula.isNegation (.node ν (.name n)) [first, second] = true) :
    formula (.node note (.call (.node ν (.name n)) [first, second])) =
      fun d => negation second (formula second d) := by
  have hcond : (decide (n = "-") && isZero first) = true := by
    simpa [Formula.isNegation] using h
  funext d
  simp only [formula, shape, call, formulas, callOfName]
  rw [if_pos hcond]

lemma same_reread_call {note : ε} {callee : Formula ε δ σ} {args : List (Formula ε δ σ)}
    (hnormal : ∀ a ∈ args, a.Throughout Formula.Normal) (hcallee : Same callee callee.reread)
    (hargs : ∀ a ∈ args, Same a a.reread) :
    Same (.node note (.call callee args))
      (Formula.node note (.call callee args) : Formula ε δ σ).reread := by
  rw [Formula.reread_call hnormal]
  cases hneg : Formula.isNegation callee args with
  | false =>
    refine Same.node (.call hcallee ?_) note ()
    rw [Formula.rereadArguments, if_neg (by simp), List.forall₂_map_right_iff, List.forall₂_same]
    exact hargs
  | true =>
    unfold Formula.isNegation at hneg
    split at hneg
    · rename_i ν n first second
      obtain ⟨hn, hzero⟩ := Bool.and_eq_true_iff.mp hneg
      obtain rfl := beq_iff_eq.mp hn
      have hname : (Formula.node ν (.name "-") : Formula ε δ σ).reread = .node () (.name "-") := by
        rw [Formula.reread, Shape.reread]
      have hsecond := hargs second (by simp)
      have hleft : Formula.isNegation (.node ν (.name "-")) [first, second] = true := hneg
      -- a sign in front of an operand is read as a subtraction from zero
      have hright : Formula.isNegation (.node () (.name "-"))
          [.node () (.number Binary64.zero), second.reread] = true := by
        rw [Formula.isNegation, isZero]
        decide
      have hrereads : Formula.rereadArguments true ([first, second].map Formula.reread) =
          [.node () (.number Binary64.zero), second.reread] := by
        rw [Formula.rereadArguments, if_pos rfl]
        rfl
      rw [hname, hrereads]
      refine ⟨?_, rfl, rfl, rfl⟩
      rw [formula_negation hleft, formula_negation hright, hsecond.formula_eq]
      funext d
      rw [negation, negation, hsecond.isNumber_eq]
    · cases hneg

lemma sameSet_map_reread {set : DefinitionSet ε δ σ} (h : ∀ f ∈ set.formulas, Same f f.reread) :
    SameSet set (.node () (set.definitions.map (Definition.toBare Formula.reread)) [] :
      DefinitionSet.Bare) := by
  obtain ⟨ν, ds, floating⟩ := set
  refine sameSet_node ?_ _ _
  rw [DefinitionSet.definitions, List.forall₂_map_right_iff, List.forall₂_same]
  intro d hd
  obtain ⟨μ, n, _ | value⟩ := d
  · exact ⟨rfl, rfl⟩
  · have hvalue := h value (DefinitionSet.mem_formulas_of_value hd rfl)
    exact ⟨rfl, congrArg some hvalue.formula_eq⟩

/-- What a formula in normal form says is written as the formula is. -/
theorem same_reread {f : Formula ε δ σ} (h : f.Throughout Formula.Normal) : Same f f.reread := by
  induction h with
  | @intro note shape here below ih =>
    cases shape with
    | null =>
      rw [Formula.reread, Shape.reread]
      exact Same.node .null note ()
    | bool v =>
      rw [Formula.reread, Shape.reread]
      exact Same.node (.bool v) note ()
    | number x =>
      have hfinite : x.isFinite = true := here
      rw [Formula.reread, Shape.reread, Binary64.reread, if_pos hfinite]
      exact Same.node (.number x) note ()
    | text v =>
      rw [Formula.reread, Shape.reread]
      exact Same.node (.text v) note ()
    | name n =>
      rw [Formula.reread, Shape.reread]
      exact Same.node (.name n) note ()
    | matrix m =>
      obtain ⟨⟨entries, rfl⟩, hfinite⟩ := here
      rw [Formula.reread, Shape.reread, Matrix.reread_array hfinite]
      exact Same.node (.matrix _) note ()
    | list items =>
      rw [Formula.reread_list here below]
      refine Same.node (.list ?_) note ()
      rw [List.forall₂_map_right_iff, List.forall₂_same]
      exact ih
    | call callee args =>
      exact same_reread_call (fun a ha => below a (List.mem_cons_of_mem _ ha))
        (ih callee List.mem_cons_self) fun a ha => ih a (List.mem_cons_of_mem _ ha)
    | closure ps body =>
      rw [Formula.reread_closure here]
      exact Same.node (.closure ps (sameSet_map_reread ih)) note ()
    | switch cs =>
      -- the cases behind the first `otherwise` are not written
      refine (same_written note (.switch cs)).trans ?_
      rw [Formula.reread, Shape.reread, Case.rereads_eq_map]
      refine Same.node (.switch ?_) note ()
      rw [List.forall₂_map_right_iff, List.forall₂_same]
      intro c hc
      have hparts : ∀ x ∈ c.parts, Same x x.reread := fun x hx => ih x
        (List.mem_flatMap.mpr ⟨c, Case.mem_of_mem_upToOtherwise hc, hx⟩)
      cases c with
      | when condition value =>
        exact .when (hparts condition (by simp [Case.parts])) (hparts value (by simp [Case.parts]))
      | otherwise value => exact .otherwise (hparts value (by simp [Case.parts]))

/-- The text of a program in normal form is the text of the program that it says. -/
theorem program_reread {set : DefinitionSet ε δ σ} (hbound : set.Bound)
    (h : set.Throughout Formula.Normal) : program set.reread = program set := by
  rw [DefinitionSet.reread, hbound.rereads_eq]
  exact program_congr (sameSet_map_reread fun f hf => same_reread (h f hf)).symm

/-- No minus is written in front of another one in a formula in normal form. -/
lemma apart_of_normal {f : Formula ε δ σ} (h : f.Throughout Formula.Normal) : Apart f := by
  cases h with
  | @intro note shape here below =>
    cases shape with
    | call callee args =>
      intro _ a ha
      cases below a (List.mem_cons_of_mem _ (List.mem_of_mem_tail ha)) with
      | @intro ν s hnormal _ =>
        cases s with
        | matrix m =>
          obtain ⟨⟨entries, rfl⟩, -⟩ := hnormal
          rfl
        | _ => rfl
    | _ => trivial

end Formulary.Layout
