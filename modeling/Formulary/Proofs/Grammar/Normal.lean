/-
# Formulas that are read are in normal form

Whatever tokens a formula is read from, it is in normal form, and so are all formulas in it.
-/
import Formulary.Proofs.Formula.Normal
import Formulary.Proofs.Grammar.Recursion
import Formulary.Proofs.Operator.Climbing
import Formulary.Proofs.Parsing.Results

namespace Formulary

open Text Parsing

/-- Everywhere in normal form. -/
abbrev Formula.AllNormal (f : Formula.Placed) : Prop := f.Throughout Formula.Normal

/-- A definition of a formula that is everywhere in normal form. -/
def Definition.AllNormal (d : Definition.Placed) : Prop :=
  ∃ f, d.value = some f ∧ f.AllNormal

/-- Definitions that all have formulas make a set in normal form. -/
lemma DefinitionSet.bound_ofDefinitions {ds : List Definition.Placed}
    (h : ∀ d ∈ ds, d.AllNormal) : (DefinitionSet.ofDefinitions ds).Bound ∧
      (DefinitionSet.ofDefinitions ds).Throughout Formula.Normal := by
  refine ⟨⟨fun d hd => ?_, rfl⟩, fun g hg => ?_⟩
  · obtain ⟨f, hf, -⟩ := h d hd
    rw [hf]
    rfl
  · rw [DefinitionSet.ofDefinitions, DefinitionSet.formulas, List.append_nil,
      List.mem_filterMap] at hg
    obtain ⟨d, hd, hvalue⟩ := hg
    obtain ⟨f, hf, hnormal⟩ := h d hd
    rw [hf] at hvalue
    cases hvalue
    exact hnormal

namespace Grammar

open Joining

lemma normal_call {span : Span} {callee : Formula.Placed} {args : List Formula.Placed}
    (hcallee : callee.AllNormal) (hargs : ∀ a ∈ args, a.AllNormal) :
    (Formula.node span (.call callee args) : Formula.Placed).AllNormal :=
  .intro trivial (List.forall_mem_cons.mpr ⟨hcallee, hargs⟩)

lemma normal_operation (symbol : Located String) (a b : Formula.Placed) (ha : a.AllNormal)
    (hb : b.AllNormal) : (Formula.operation symbol a b).AllNormal := by
  refine normal_call (.intro trivial fun g hg => by cases hg) ?_
  simp only [List.forall_mem_cons, List.not_mem_nil, false_implies, implies_true, and_true]
  exact ⟨ha, hb⟩

lemma normal_negation (minus : Span) {f : Formula.Placed} (hf : f.AllNormal) :
    (Formula.negation minus f).AllNormal := by
  refine normal_operation _ _ _ (.intro ?_ fun g hg => by cases hg) hf
  show Binary64.zero.isFinite = true
  decide

/-! ## Literals and names -/

lemma normal_literalShape {token : Located Token} {shape : Shape Formula.Placed DefinitionSet.Placed}
    (h : literalShape? token = some (.ok shape)) (span : Span) :
    (Formula.node span shape : Formula.Placed).AllNormal := by
  unfold literalShape? at h
  split at h
  · cases h
    exact .intro trivial fun g hg => by cases hg
  · cases h
    exact .intro trivial fun g hg => by cases hg
  · rename_i whole fraction _
    cases hvalue : numberValue token.span whole fraction with
    | error f =>
      rw [hvalue] at h
      cases h
    | ok value =>
      rw [hvalue] at h
      cases h
      exact .intro (numberValue_eq_ok_iff.mp hvalue).2 fun g hg => by cases hg
  · cases h
    exact .intro trivial fun g hg => by cases hg
  · cases h

lemma gives_literal : Gives Grammar.literal Formula.AllNormal := by
  refine gives_bind_any fun token => ?_
  cases hshape : literalShape? token with
  | none => exact gives_expected _
  | some result =>
    cases result with
    | error f => exact gives_throw f
    | ok shape => exact gives_bind_any fun _ => gives_pure (normal_literalShape hshape _)

lemma gives_reference : Gives reference Formula.AllNormal :=
  gives_get fun _ => gives_bind_any fun _ => gives_pure (.intro trivial fun g hg => by cases hg)

/-! ## Rules that refer to formulas -/

section Rules

variable {formula : Parser Token Formula.Placed} (h : Gives formula Formula.AllNormal)

include h

lemma gives_commaList : Gives (commaList formula) fun fs => ∀ f ∈ fs, f.AllNormal :=
  gives_bind_any fun _ => gives_bind (gives_separated (gives_optional h)) fun _ hfs =>
    gives_bind_any fun _ => gives_pure hfs

lemma gives_parenthesized : Gives (parenthesized formula) Formula.AllNormal :=
  gives_bind_any fun _ => gives_within (gives_bind_any fun _ => gives_bind h fun _ hf =>
    gives_bind_any fun _ => gives_pure hf)

lemma gives_application : Gives (application formula) fun o =>
    ∀ b ∈ o, ∀ f ∈ b.1.1, f.AllNormal := by
  have hlist : Gives (do Grammar.space; arguments formula : Parser Token (List Formula.Placed))
      fun fs => ∀ f ∈ fs, f.AllNormal :=
    gives_bind_any fun _ => gives_bind_any fun _ => gives_within (gives_commaList h)
  refine gives_bind (gives_optional hlist) ?_
  rintro (_ | list) hfs
  · refine gives_pure ?_
    rintro b ⟨⟩
  · refine gives_get fun _ => gives_pure ?_
    rintro b ⟨⟩
    exact hfs list rfl

lemma gives_call : Gives (call formula) Formula.AllNormal := by
  have hcallee : Gives (choice [reference, parenthesized formula]) Formula.AllNormal := by
    refine gives_choice (forall_mem_pair ?_ ?_)
    · exact gives_reference
    · exact gives_parenthesized h
  refine gives_get fun _ => gives_bind hcallee fun callee hf => ?_
  have hlists : Gives (collect (application formula)) fun lists =>
      ∀ l ∈ lists, ∀ f ∈ l.1, f.AllNormal := gives_collect (gives_application h)
  refine gives_bind hlists fun lists hlists => gives_pure ?_
  induction lists generalizing callee with
  | nil => exact hf
  | cons l lists ih =>
    rw [List.forall_mem_cons] at hlists
    exact ih _ (normal_call hf hlists.1) hlists.2

lemma gives_list : Gives (list formula) Formula.AllNormal :=
  gives_get fun _ => gives_bind_any fun _ => gives_bind (gives_within (gives_commaList h))
    fun _ hitems => gives_get fun _ => gives_pure (Formula.throughout_ofItems hitems)

/-- The formulas of a case are everywhere in normal form. -/
def NormalCase (c : Case Formula.Placed) : Prop := ∀ f ∈ c.parts, f.AllNormal

lemma gives_otherwiseCase : Gives (otherwiseCase formula) NormalCase :=
  gives_bind_any fun _ => gives_bind_any fun _ => gives_bind h fun _ hf =>
    gives_pure (List.forall_mem_singleton.mpr hf)

lemma gives_whenCase : Gives (whenCase formula) NormalCase := by
  refine gives_bind (gives_notAhead h) fun condition hcondition => gives_bind_any fun _ =>
    gives_bind_any fun _ => gives_bind_any fun _ => gives_bind h fun value hvalue =>
      gives_pure ?_
  exact List.forall_mem_cons.mpr ⟨hcondition, List.forall_mem_singleton.mpr hvalue⟩

lemma gives_cases : Gives (cases formula) fun cs => ∀ c ∈ cs, NormalCase c := by
  have hnext : Gives (nextCase formula) fun o => ∀ c ∈ o, NormalCase c := by
    refine gives_get fun c => ?_
    split
    · refine gives_pure ?_
      rintro c ⟨⟩
    · refine gives_bind (P := NormalCase) (gives_choice (forall_mem_pair ?_ ?_)) fun c hc =>
        gives_pure ?_
      · exact gives_otherwiseCase h
      · exact gives_whenCase h
      · rintro c' ⟨⟩
        exact hc
  exact gives_bind_any fun _ => gives_bind (gives_separated hnext) fun _ hcs =>
    gives_bind_any fun _ => gives_pure hcs

lemma gives_switch : Gives (switch formula) Formula.AllNormal := by
  have hcases : Gives (choice [do within (← block) (cases formula), do
      Grammar.space
      return [← otherwiseCase formula]]) fun cs => ∀ c ∈ cs, NormalCase c := by
    refine gives_choice (forall_mem_pair ?_ ?_)
    · exact gives_bind_any fun _ => gives_within (gives_cases h)
    · exact gives_bind_any fun _ => gives_bind (gives_otherwiseCase h) fun _ hc =>
        gives_pure (List.forall_mem_singleton.mpr hc)
  refine gives_get fun _ => gives_bind_any fun _ => gives_bind hcases fun cs hcs =>
    gives_get fun _ => gives_pure (.intro trivial fun g hg => ?_)
  obtain ⟨c, hc, hpart⟩ := List.mem_flatMap.mp hg
  exact hcs c hc g hpart

lemma gives_primary : Gives (primary formula) Formula.AllNormal := by
  refine gives_choice fun m hm => ?_
  simp only [List.mem_cons, List.not_mem_nil, or_false] at hm
  rcases hm with rfl | rfl | rfl | rfl
  · exact gives_literal
  · exact gives_switch h
  · exact gives_call h
  · exact gives_list h

lemma gives_operand : Gives (operand formula) Formula.AllNormal := by
  refine gives_choice (forall_mem_pair ?_ ?_)
  · exact gives_bind_any fun _ => gives_bind (gives_primary h) fun _ hf =>
      gives_pure (normal_negation _ hf)
  · exact gives_primary h

lemma gives_chain : Gives (chain formula) Formula.AllNormal := by
  have hoperation : Gives (operation formula) fun ls => ∀ l ∈ ls, HoldsOf Formula.AllNormal l := by
    refine gives_bind_any fun _ => gives_bind_any fun _ => gives_bind_any fun _ =>
      gives_bind (gives_operand h) fun a ha => gives_pure ?_
    simp only [List.forall_mem_cons, List.not_mem_nil, false_implies, implies_true, and_true]
    refine ⟨?_, ?_⟩
    · rintro b ⟨⟩
    · rintro b ⟨⟩
      exact ha
  refine gives_bind (gives_operand h) fun first hfirst =>
    gives_bind (gives_many hoperation) fun rest hrest => ?_
  cases rest with
  | nil => exact gives_pure hfirst
  | cons l rest =>
    show Gives (chain.liftExcept (Formula.joining.fold (.operand first :: (l :: rest).flatten))) _
    have hlinks : ∀ l' ∈ Link.operand first :: (l :: rest).flatten, HoldsOf Formula.AllNormal l' := by
      refine List.forall_mem_cons.mpr ⟨?_, fun l' hl' => ?_⟩
      · rintro b ⟨⟩
        exact hfirst
      · obtain ⟨ls, hls, hmem⟩ := List.mem_flatten.mp hl'
        exact hrest ls hls l' hmem
    cases hfold : Formula.joining.fold (.operand first :: (l :: rest).flatten) with
    | error f => exact gives_throw f
    | ok a => exact gives_pure (fold_holds normal_operation hlinks hfold)

/-! ## Closures and definitions -/

lemma gives_definition : Gives (definition formula) Definition.AllNormal :=
  gives_get fun _ => gives_bind_any fun _ => gives_bind_any fun _ => gives_bind_any fun _ =>
    gives_bind_any fun _ => gives_bind h fun f hf => gives_get fun _ => gives_pure ⟨f, rfl, hf⟩

lemma gives_definitions : Gives (definitions formula) fun ds => ∀ d ∈ ds, d.AllNormal :=
  gives_bind_any fun _ => gives_bind (gives_separated (gives_optional (gives_definition h)))
    fun _ hds => gives_bind_any fun _ => gives_pure hds

lemma gives_whereClause : Gives (whereClause formula) fun ds => ∀ d ∈ ds, d.AllNormal := by
  refine gives_bind_any fun _ => gives_bind_any fun _ => gives_choice (forall_mem_pair ?_ ?_)
  · exact gives_bind_any fun _ => gives_within (gives_definitions h)
  · exact gives_bind_any fun _ => gives_bind (gives_definition h) fun _ hd =>
      gives_pure (List.forall_mem_singleton.mpr hd)

lemma gives_closure : Gives (closure formula) Formula.AllNormal := by
  refine gives_get fun _ => gives_bind_any fun ps => gives_bind_any fun _ => gives_bind_any fun _ =>
    gives_bind_any fun _ => gives_bind h fun result hresult => ?_
  refine gives_bind (gives_optional (gives_whereClause h)) fun locals hlocals =>
    gives_get fun _ => gives_pure ?_
  have hds : ∀ d ∈ Definition.node result.note resultName (some result) :: locals.getD [],
      d.AllNormal := by
    refine List.forall_mem_cons.mpr ⟨⟨result, rfl, hresult⟩, ?_⟩
    cases locals with
    | none => simp
    | some ds => exact hlocals ds rfl
  have hset := DefinitionSet.bound_ofDefinitions hds
  exact .intro ⟨hset.1, _, _, rfl, rfl⟩ hset.2

lemma gives_closureOrChain : Gives (closureOrChain formula) Formula.AllNormal := by
  refine gives_choice (forall_mem_pair ?_ ?_)
  · exact gives_closure h
  · exact gives_chain h

end Rules

/-- Every formula that is read is in normal form, with all formulas in it. -/
theorem gives_formula : Gives formula Formula.AllNormal :=
  gives_fix (fun _ hg _ => gives_closureOrChain (hg ())) ()

end Grammar

/-- Every program that is read from tokens defines all its names and is in normal form. -/
theorem DefinitionSet.normal_of_ofTokens {tokens : List (Located Token)} {p : DefinitionSet.Placed}
    (h : DefinitionSet.ofTokens tokens = .ok p) : p.Bound ∧ p.Throughout Formula.Normal := by
  obtain ⟨ds, c, hrun, -, rfl⟩ := ofTokens_inv h
  exact DefinitionSet.bound_ofDefinitions (Grammar.gives_definitions Grammar.gives_formula hrun)

end Formulary
