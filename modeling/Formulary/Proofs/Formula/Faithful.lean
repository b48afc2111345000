/-
# What is read back is what was written

A formula in normal form says itself: all that writing it changes is the sign of a zero in front
of a minus, and that the cases of a switch end with the first one without a condition.  So its
snapshot and the one of the formula that its text says are alike.
-/
import Formulary.Proofs.Data.Results
import Formulary.Proofs.Formula.Cut
import Formulary.Proofs.Formula.Normal
import Formulary.Proofs.Formula.Reread

namespace Formulary

open Layout

variable {ε δ σ : Type}

/-! ## Likeness -/

lemma Binary64.alike_self {x : Binary64} (h : x.isFinite = true) : x.alike x = true := by
  have hnan : x.isNaN = false :=
    decide_eq_false (Nat.not_lt.mpr (Nat.le_of_lt (of_decide_eq_true h)))
  simp [Binary64.alike, hnan]

/-- All zeros have the same value. -/
lemma Binary64.zero_alike {x : Binary64} (h : x.isZero = true) : Binary64.zero.alike x = true := by
  have hrank : x.rank = 0 := by simpa [Binary64.isZero] using h
  have hnan : Binary64.zero.isNaN = false := by decide
  have hzero : Binary64.zero.rank = 0 ∧ Binary64.zero.isZero = true := by decide
  simp [Binary64.alike, hnan, hzero, hrank]

mutual

theorem Matrix.alike_self : ∀ m : Matrix, m.Finite → m.alike m = true
  | .null => fun _ => by rw [Matrix.alike]
  | .bool _ => fun _ => by rw [Matrix.alike, beq_self_eq_true]
  | .number x => fun h => by
    rw [Matrix.alike]
    exact Binary64.alike_self (h x (by simp [Matrix.numbers]))
  | .text _ => fun _ => by rw [Matrix.alike, beq_self_eq_true]
  | .array ms => fun h => by
    rw [Matrix.alike]
    exact Matrix.allAlike_self ms (Matrix.finite_array.mp h)

theorem Matrix.allAlike_self : ∀ ms : List Matrix, (∀ m ∈ ms, m.Finite) →
    Matrix.allAlike ms ms = true
  | [] => fun _ => by rw [Matrix.allAlike]
  | m :: ms => fun h => by
    rw [List.forall_mem_cons] at h
    rw [Matrix.allAlike, Matrix.alike_self m h.1, Matrix.allAlike_self ms h.2]
    rfl

end

section Lists

variable {χ : Type} {F G : χ → Formula.Bare}

lemma Formula.allAlike_map {l : List χ} (h : ∀ x ∈ l, (F x).alike (G x) = true) :
    Formula.allAlike (l.map F) (l.map G) = true := by
  induction l with
  | nil => rw [List.map_nil, List.map_nil, Formula.allAlike]
  | cons x l ih =>
    rw [List.forall_mem_cons] at h
    rw [List.map_cons, List.map_cons, Formula.allAlike, h.1, ih h.2]
    rfl

lemma Case.allAlike_map {l : List (Case χ)}
    (h : ∀ x ∈ l.flatMap Case.parts, (F x).alike (G x) = true) :
    Case.allAlike (l.map (Case.map F)) (l.map (Case.map G)) = true := by
  induction l with
  | nil => rw [List.map_nil, List.map_nil, Case.allAlike]
  | cons c l ih =>
    rw [List.flatMap_cons, List.forall_mem_append] at h
    cases c with
    | when condition value =>
      rw [List.map_cons, List.map_cons, Case.map, Case.map, Case.allAlike,
        h.1 condition (by simp [Case.parts]), h.1 value (by simp [Case.parts]), ih h.2]
      rfl
    | otherwise value =>
      rw [List.map_cons, List.map_cons, Case.map, Case.map, Case.allAlike,
        h.1 value (by simp [Case.parts]), ih h.2]
      rfl

lemma Definition.allAlike_map {F G : Formula ε δ σ → Formula.Bare} {l : List (Definition ε δ σ)}
    (h : ∀ d ∈ l, ∀ x ∈ d.value, (F x).alike (G x) = true) :
    Definition.allAlike (l.map (Definition.toBare F)) (l.map (Definition.toBare G)) = true := by
  induction l with
  | nil => rw [List.map_nil, List.map_nil, Definition.allAlike]
  | cons d l ih =>
    rw [List.forall_mem_cons] at h
    obtain ⟨note, name, _ | value⟩ := d
    · rw [List.map_cons, List.map_cons, Definition.toBare, Definition.toBare, Option.map_none,
        Option.map_none, Definition.allAlike, ih h.2, beq_self_eq_true]
      rfl
    · rw [List.map_cons, List.map_cons, Definition.toBare, Definition.toBare, Option.map_some,
        Option.map_some, Definition.allAlike, h.1 value rfl, ih h.2, beq_self_eq_true]
      rfl

end Lists

/-! ## Values that are written out in full -/

mutual

/-- A value with finite numbers is still written out in full in the formula that it says. -/
theorem Matrix.matrix?_reread : ∀ m : Matrix, m.Finite → m.reread.matrix? = some m
  | .null => fun _ => by rw [Matrix.reread]; rfl
  | .bool _ => fun _ => by rw [Matrix.reread]; rfl
  | .number x => fun h => by
    rw [Matrix.reread, Binary64.reread, if_pos (h x (by simp [Matrix.numbers]))]
    rfl
  | .text _ => fun _ => by rw [Matrix.reread]; rfl
  | .array ms => fun h => by
    rw [Matrix.reread, Formula.ofItems, Matrix.mapM_rereads ms (Matrix.finite_array.mp h)]
    rfl

theorem Matrix.mapM_rereads : ∀ ms : List Matrix, (∀ m ∈ ms, m.Finite) →
    (Matrix.rereads ms).mapM Formula.matrix? = some ms
  | [] => fun _ => by rw [Matrix.rereads, List.mapM_nil]; rfl
  | m :: ms => fun h => by
    rw [List.forall_mem_cons] at h
    rw [Matrix.rereads, List.mapM_cons, Matrix.matrix?_reread m h.1, Matrix.mapM_rereads ms h.2]
    rfl

end

lemma Matrix.reread_array {entries : List Matrix} (h : (Matrix.array entries).Finite) :
    (Matrix.array entries).reread = .node () (.matrix (.array entries)) := by
  rw [Matrix.reread, Formula.ofItems, Matrix.mapM_rereads entries (Matrix.finite_array.mp h)]

/-! ## One layer -/

/-- No minus is glued to a formula in normal form: a matrix in it is an array. -/
lemma Formula.reread_call {note : ε} {callee : Formula ε δ σ} {args : List (Formula ε δ σ)}
    (h : ∀ a ∈ args, a.Throughout Formula.Normal) :
    (Formula.node note (.call callee args) : Formula ε δ σ).reread =
      .node () (.call callee.reread (Formula.rereadArguments (Formula.isNegation callee args)
        (args.map Formula.reread))) := by
  have hglued : Formula.glued? callee args = none := by
    unfold Formula.glued?
    split
    · rename_i n first μ x
      cases h (.node μ (.matrix (.number x))) (by simp) with
      | intro here _ =>
        obtain ⟨entries, heq⟩ := here.1
        cases heq
    · rfl
  rw [Formula.reread, Shape.reread, hglued, Formula.rereads_eq_map]

/-- A formula in normal form is written out in full exactly if the formula that it says is. -/
lemma Formula.matrix?_reread {f : Formula ε δ σ} (h : f.Throughout Formula.Normal) :
    f.reread.matrix? = f.matrix? := by
  induction h with
  | @intro note shape here below ih =>
    rw [Formula.reread]
    cases shape with
    | number x =>
      have hfinite : x.isFinite = true := here
      rw [Shape.reread, Binary64.reread, if_pos hfinite]
      rfl
    | matrix m =>
      rw [Shape.reread, Matrix.matrix?_reread m here.2]
      rfl
    | list items =>
      obtain ⟨f, hf, hnone⟩ := here
      have hitem := List.mem_map_of_mem (f := Formula.reread) hf
      rw [Shape.reread, Formula.ofItems, Formula.rereads_eq_map,
        mapM_eq_none_iff.mpr ⟨_, hitem, (ih f hf).trans hnone⟩]
      rfl
    | call callee args =>
      rw [← Formula.reread.eq_1 note,
        Formula.reread_call fun a ha => below a (List.mem_cons_of_mem _ ha)]
      rfl
    | _ => rw [Shape.reread]; rfl

lemma Formula.reread_list {note : ε} {items : List (Formula ε δ σ)}
    (here : Formula.Normal (.node note (.list items)))
    (below : ∀ f ∈ items, f.Throughout Formula.Normal) :
    (Formula.node note (.list items) : Formula ε δ σ).reread =
      .node () (.list (items.map Formula.reread)) := by
  obtain ⟨f, hf, hnone⟩ := here
  have hitem := List.mem_map_of_mem (f := Formula.reread) hf
  rw [Formula.reread, Shape.reread, Formula.ofItems, Formula.rereads_eq_map,
    mapM_eq_none_iff.mpr ⟨_, hitem, (Formula.matrix?_reread (below f hf)).trans hnone⟩]

/-- The definitions of a set in which all names stand for formulas. -/
lemma DefinitionSet.Bound.rereads_eq {set : DefinitionSet ε δ σ} (h : set.Bound) :
    set.rereads = set.definitions.map (Definition.toBare Formula.reread) := by
  obtain ⟨note, ds, floating⟩ := set
  rw [DefinitionSet.rereads, Definition.rereads_eq_map]
  refine List.map_congr_left fun d hd => ?_
  have hvalue := h.1 d hd
  obtain ⟨ν, name, _ | value⟩ := d
  · cases hvalue
  · rfl

lemma Formula.reread_closure {note : ε} {ps : List String} {body : DefinitionSet ε δ σ}
    (here : Formula.Normal (.node note (.closure ps body) : Formula ε δ σ)) :
    (Formula.node note (.closure ps body) : Formula ε δ σ).reread = .node () (.closure ps
      (.node () (body.definitions.map (Definition.toBare Formula.reread)) [])) := by
  obtain ⟨hbound, d, ds, hds, hname⟩ := here
  have hresult : (d.toBare Formula.reread).name = resultName := by
    rw [← hname]
    obtain ⟨ν, name, value⟩ := d
    rfl
  rw [Formula.reread, Shape.reread, hbound.rereads_eq, Definition.resultFirst, hds, List.map_cons]
  simp [hresult]

/-! ## Snapshots -/

/-- Sets of the same definitions with formulas that are alike are alike once they are sorted. -/
lemma DefinitionSet.alike_snapshot {set : DefinitionSet ε δ σ} (hbound : set.Bound)
    (h : ∀ f ∈ set.formulas, f.reread.snapshot.alike f.snapshot.cut = true) :
    (DefinitionSet.node () (set.definitions.map (Definition.toBare Formula.reread))
      [] : DefinitionSet.Bare).snapshot.alike set.snapshot.cut = true := by
  -- both are sorted by name in the same way, so they are compared in one order
  have hreread : (DefinitionSet.node () (set.definitions.map (Definition.toBare Formula.reread))
      [] : DefinitionSet.Bare).snapshot =
        .node () (set.sorted.map (Definition.toBare fun f => f.reread.snapshot)) [] := by
    rw [DefinitionSet.snapshot_eq, ← DefinitionSet.map_sorted, DefinitionSet.definitions,
      List.map_map, ← DefinitionSet.map_sorted]
    have hmap : Definition.toBare Formula.snapshot ∘ Definition.toBare Formula.reread =
        (Definition.toBare fun f : Formula ε δ σ => f.reread.snapshot) := by
      funext d
      obtain ⟨ν, name, _ | value⟩ := d <;> rfl
    rw [hmap]
    rfl
  have hcut : set.snapshot.cut =
      .node () (set.sorted.map (Definition.toBare fun f => f.snapshot.cut)) [] := by
    rw [DefinitionSet.snapshot_eq, hbound.2, DefinitionSet.cut, Definition.cuts_eq_map,
      List.map_map]
    have hmap : Definition.toBare Formula.cut ∘ Definition.toBare Formula.snapshot =
        (Definition.toBare fun f : Formula ε δ σ => f.snapshot.cut) := by
      funext d
      obtain ⟨ν, name, _ | value⟩ := d <;> rfl
    rw [hmap, List.map_nil, Formula.cuts]
  have hvalues : ∀ d ∈ set.sorted, ∀ f ∈ d.value, f.reread.snapshot.alike f.snapshot.cut = true := by
    intro d hd f hf
    obtain ⟨ν, ds, floating⟩ := set
    exact h f (DefinitionSet.mem_formulas_of_value (DefinitionSet.mem_sorted.mp hd) hf)
  rw [hreread, hcut, DefinitionSet.alike, Definition.allAlike_map hvalues, Formula.allAlike]
  rfl

lemma Formula.alike_rereadArguments {callee : Formula ε δ σ} {args : List (Formula ε δ σ)}
    (h : ∀ a ∈ args, a.reread.snapshot.alike a.snapshot.cut = true) :
    Formula.allAlike (Formula.snapshots (Formula.rereadArguments (Formula.isNegation callee args)
      (args.map Formula.reread))) (Formula.cuts (Formula.snapshots args)) = true := by
  have hplain : Formula.allAlike (Formula.snapshots (args.map Formula.reread))
      (Formula.cuts (Formula.snapshots args)) = true := by
    rw [Formula.cuts_eq_map, Formula.snapshots_eq_map, Formula.snapshots_eq_map, List.map_map,
      List.map_map]
    exact Formula.allAlike_map h
  unfold Formula.isNegation
  split
  · rename_i ν n first second
    cases hneg : n == "-" && isZero first with
    | false => exact hplain
    | true =>
      -- the sign of the zero does not matter
      obtain ⟨-, hzero⟩ := Bool.and_eq_true_iff.mp hneg
      have hfirst : (Formula.node () (.number Binary64.zero) : Formula.Bare).snapshot.alike
          first.snapshot.cut = true := by
        obtain ⟨note, shape⟩ := first
        cases shape with
        | number x =>
          have hx : x.isZero = true := hzero
          simp only [Formula.snapshot, Shape.snapshot, Formula.cut, Shape.cut, Formula.alike,
            Shape.alike]
          exact Binary64.zero_alike hx
        | _ => cases hzero
      have hsecond := h second (by simp)
      simp only [Formula.rereadArguments, if_true, List.map_cons, List.map_nil, List.tail_cons,
        Formula.snapshots, Formula.cuts, Formula.allAlike, hfirst, hsecond, Bool.and_self]
  · exact hplain

/-- The snapshots of a formula in normal form and of what it says are alike, but for the cases
that are not written. -/
theorem Formula.alike_reread {f : Formula ε δ σ} (h : f.Throughout Formula.Normal) :
    f.reread.snapshot.alike f.snapshot.cut = true := by
  induction h with
  | @intro note shape here below ih =>
    cases shape with
    | null =>
      simp only [Formula.reread, Shape.reread, Formula.snapshot, Shape.snapshot, Formula.cut,
        Shape.cut, Formula.alike, Shape.alike]
    | bool v =>
      simp only [Formula.reread, Shape.reread, Formula.snapshot, Shape.snapshot, Formula.cut,
        Shape.cut, Formula.alike, Shape.alike, beq_self_eq_true]
    | number x =>
      have hfinite : x.isFinite = true := here
      simp only [Formula.reread, Shape.reread, Binary64.reread, hfinite, if_true,
        Formula.snapshot, Shape.snapshot, Formula.cut, Shape.cut, Formula.alike, Shape.alike]
      exact Binary64.alike_self hfinite
    | text v =>
      simp only [Formula.reread, Shape.reread, Formula.snapshot, Shape.snapshot, Formula.cut,
        Shape.cut, Formula.alike, Shape.alike, beq_self_eq_true]
    | name n =>
      simp only [Formula.reread, Shape.reread, Formula.snapshot, Shape.snapshot, Formula.cut,
        Shape.cut, Formula.alike, Shape.alike, beq_self_eq_true]
    | matrix m =>
      obtain ⟨⟨entries, rfl⟩, hfinite⟩ := here
      simp only [Formula.reread, Shape.reread, Matrix.reread_array hfinite,
        Formula.snapshot, Shape.snapshot, Formula.cut, Shape.cut, Formula.alike, Shape.alike]
      exact Matrix.alike_self _ hfinite
    | list items =>
      rw [Formula.reread_list here below]
      simp only [Formula.snapshot, Shape.snapshot, Formula.cut, Shape.cut, Formula.alike,
        Shape.alike, Formula.cuts_eq_map, Formula.snapshots_eq_map, List.map_map]
      exact Formula.allAlike_map ih
    | call callee args =>
      rw [Shape.children, List.forall_mem_cons] at ih
      rw [Formula.reread_call fun a ha => below a (List.mem_cons_of_mem _ ha)]
      simp only [Formula.snapshot, Shape.snapshot, Formula.cut, Shape.cut, Formula.alike,
        Shape.alike, ih.1, Bool.true_and]
      exact Formula.alike_rereadArguments ih.2
    | closure ps body =>
      rw [Formula.reread_closure here]
      simp only [Formula.snapshot, Shape.snapshot, Formula.cut, Shape.cut, Formula.alike,
        Shape.alike, beq_self_eq_true, Bool.true_and]
      exact DefinitionSet.alike_snapshot here.1 ih
    | switch cs =>
      -- the cases behind the first `otherwise` are lost in both
      have hcut : Case.upToOtherwise (cs.map (Case.map Formula.snapshot)) =
          (Case.upToOtherwise cs).map (Case.map Formula.snapshot) := Case.upToOtherwise_map _ cs
      simp only [Formula.reread, Shape.reread, Formula.snapshot, Shape.snapshot, Formula.cut,
        Shape.cut, Formula.alike, Shape.alike, Case.rereads_eq_map, Case.snapshots_eq_map,
        Case.cuts_eq_map, hcut, List.map_map, Function.comp_def, Case.map_map]
      refine Case.allAlike_map fun x hx => ih x ?_
      obtain ⟨c, hc, hmem⟩ := List.mem_flatMap.mp hx
      exact List.mem_flatMap.mpr ⟨c, Case.mem_of_mem_upToOtherwise hc, hmem⟩

/-- The same for programs. -/
theorem DefinitionSet.alike_reread {set : DefinitionSet ε δ σ} (hbound : set.Bound)
    (h : set.Throughout Formula.Normal) : set.reread.snapshot.alike set.snapshot.cut = true := by
  rw [DefinitionSet.reread, hbound.rereads_eq]
  exact DefinitionSet.alike_snapshot hbound fun f hf => Formula.alike_reread (h f hf)

end Formulary
