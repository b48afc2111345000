/-
# Programs in normal form

Programs that are read are in normal form, from whatever tokens they are read.  In normal form a
bracket group is a matrix exactly if it is written out in full: if its items are single values,
matrices, or lists of such items again.  The store that a program is put into holds this form.
-/
import Formulary.Proofs.Data.Results
import Formulary.Proofs.Grammar.Normal
import Formulary.Proofs.Store.Contents

namespace Formulary

open Text Parsing

variable {ε δ σ : Type}

/-- A formula that is written out in full: a value, a matrix, or a list of such formulas. -/
inductive Formula.Literal : Formula ε δ σ → Prop
  | null (note : ε) : Literal (.node note .null)
  | bool (note : ε) (value : Bool) : Literal (.node note (.bool value))
  | number (note : ε) (value : Binary64) : Literal (.node note (.number value))
  | text (note : ε) (value : String) : Literal (.node note (.text value))
  | matrix (note : ε) (value : Matrix) : Literal (.node note (.matrix value))
  | list (note : ε) {items : List (Formula ε δ σ)} (h : ∀ f ∈ items, Literal f) :
      Literal (.node note (.list items))

lemma Formula.literal_of_matrix? {f : Formula ε δ σ} (h : f.matrix?.isSome) : f.Literal := by
  obtain ⟨note, shape⟩ := f
  cases shape with
  | null => exact .null note
  | bool value => exact .bool note value
  | number value => exact .number note value
  | text value => exact .text note value
  | matrix value => exact .matrix note value
  | _ => cases h

/-- No list in normal form is written out in full, so what is so is a value or a matrix. -/
lemma Formula.Literal.isSome_matrix? {f : Formula ε δ σ} (h : f.Literal)
    (hnormal : f.Throughout Formula.Normal) : f.matrix?.isSome := by
  induction h with
  | @list note items _ ih =>
    cases hnormal with
    | intro here below =>
      obtain ⟨f, hf, hnone⟩ := here
      have hsome := ih f hf (below f hf)
      rw [hnone] at hsome
      cases hsome
  | _ => rfl

lemma Formula.literal_iff {f : Formula ε δ σ} (h : f.Throughout Formula.Normal) :
    f.Literal ↔ f.matrix?.isSome :=
  ⟨fun hf => hf.isSome_matrix? h, Formula.literal_of_matrix?⟩

/-- The group of some items is a matrix exactly if all of them are written out in full. -/
lemma Formula.ofItems_matrix_iff {note : ε} {items : List (Formula ε δ σ)}
    (h : ∀ f ∈ items, f.Throughout Formula.Normal) :
    (∃ m, (Formula.ofItems note items).shape = .matrix m) ↔ ∀ f ∈ items, f.Literal := by
  have hliteral : (∀ f ∈ items, f.Literal) ↔ (items.mapM Formula.matrix?).isSome := by
    rw [mapM_isSome_iff]
    exact forall₂_congr fun f hf => Formula.literal_iff (h f hf)
  rw [hliteral, Formula.ofItems]
  cases items.mapM Formula.matrix? <;> simp [Formula.shape]

lemma Formula.note_ofItems (note : ε) (items : List (Formula ε δ σ)) :
    (Formula.ofItems note items).note = note := by
  rw [Formula.ofItems]
  cases items.mapM Formula.matrix? <;> rfl

/-- A bracket group is read as the group of what stands between its commas. -/
lemma Grammar.list_inv {c c' : Cursor Token} {f : Formula.Placed}
    (h : Grammar.list Grammar.formula c = .ok f c') : ∃ contents span rest items c₁,
      c.rest = ⟨.group .brackets contents, span⟩ :: rest ∧
      Grammar.commaList Grammar.formula (.before contents span) = .ok items c₁ ∧ c₁.rest = [] ∧
      f = Formula.ofItems f.note items := by
  have h := get_inv h
  obtain ⟨inner, c₂, hgroup, h⟩ := bind_inv h
  obtain ⟨kind, contents, span, rest, hkind, hrest, rfl, rfl⟩ := Grammar.groupOf_inv hgroup
  obtain ⟨items, c₃, hwithin, h⟩ := bind_inv h
  obtain ⟨-, c₁, hitems, hend⟩ := within_inv hwithin
  have h := get_inv h
  obtain ⟨rfl, -⟩ := pure_inv h
  rw [beq_iff_eq] at hkind
  rw [hkind] at hrest
  refine ⟨contents, span, rest, items, c₁, hrest, hitems, hend, ?_⟩
  rw [Formula.note_ofItems]

/-- A program that is read from any tokens is in normal form: all its names are defined and no
formula is without a name, in closures as well, whose first definition is the result; its numbers
are finite; a matrix is an array; and a list is never written out in full, however deep.  For a
bracket group, wherever it is read, is a matrix exactly if all its items are written out in full.
The store holds this program. -/
theorem DefinitionSet.normal_form_of_ofTokens {tokens : List (Located Token)}
    {p : DefinitionSet.Placed} (h : DefinitionSet.ofTokens tokens = .ok p) :
    p.Bound ∧ p.Throughout Formula.Normal ∧
      (p.Throughout fun f => f.Literal ↔ f.matrix?.isSome) ∧
      (∀ c f c', Grammar.list Grammar.formula c = .ok f c' → ∃ contents span rest items c₁,
        c.rest = ⟨.group .brackets contents, span⟩ :: rest ∧
        Grammar.commaList Grammar.formula (.before contents span) = .ok items c₁ ∧ c₁.rest = [] ∧
        f = Formula.ofItems f.note items ∧
        ((∃ m, f.shape = .matrix m) ↔ ∀ g ∈ items, g.Literal)) ∧
      ∃ v, (Store.ofProgram p).view .whole = .ok v ∧ v.bare = p.bare := by
  obtain ⟨hbound, hnormal⟩ := DefinitionSet.normal_of_ofTokens h
  refine ⟨hbound, hnormal, fun f hf => ?_, fun c f c' hrun => ?_, Store.exists_view_ofProgram p⟩
  · exact (hnormal f hf).self.and (hnormal f hf) fun _ hg _ => Formula.literal_iff hg
  · obtain ⟨contents, span, rest, items, c₁, hrest, hitems, hend, hf⟩ := Grammar.list_inv hrun
    refine ⟨contents, span, rest, items, c₁, hrest, hitems, hend, hf, ?_⟩
    rw [hf]
    exact Formula.ofItems_matrix_iff (Grammar.gives_commaList Grammar.gives_formula hitems)

/-- The definition of `x` by brackets around a number with an exponent, which no text has, a number
in parentheses, and brackets around a name.  The name keeps the outer brackets from being a
matrix. -/
theorem normal_form_of_brackets :
    let group : Located Token := ⟨.group .brackets [⟨.number "1" (some "5e2"), {}⟩, ⟨.comma, {}⟩,
      ⟨.group .parens [⟨.number "-2" none, {}⟩], {}⟩, ⟨.comma, {}⟩,
      ⟨.group .brackets [⟨.ident "a" false, {}⟩], {}⟩], {}⟩
    ∃ p, DefinitionSet.ofTokens [⟨.ident "x" false, {}⟩, ⟨.operator "=", {}⟩, group] = .ok p ∧
      p.Bound ∧ p.Throughout Formula.Normal ∧
      (p.Throughout fun f => f.Literal ↔ f.matrix?.isSome) ∧
      (∃ span items c', Grammar.list Grammar.formula (.before [group] {}) =
        .ok (Formula.ofItems span items) c' ∧ ∃ g ∈ items, ¬g.Literal) ∧
      ∃ v, (Store.ofProgram p).view .whole = .ok v ∧ v.bare = p.bare := by
  intro group
  let tokens := [⟨.ident "x" false, {}⟩, ⟨.operator "=", {}⟩, group]
  have hread : (DefinitionSet.ofTokens tokens).toOption.isSome := by decide +kernel
  have hgroup : ((Grammar.list Grammar.formula).run' (.before [group] {})).any
      (·.matrix?.isNone) = true := by decide +kernel
  cases hrun : DefinitionSet.ofTokens tokens with
  | error f =>
    rw [hrun] at hread
    cases hread
  | ok p =>
    obtain ⟨hbound, hnormal, hliteral, hgroups, hstore⟩ :=
      DefinitionSet.normal_form_of_ofTokens hrun
    refine ⟨p, rfl, hbound, hnormal, hliteral, ?_, hstore⟩
    delta EStateM.run' EStateM.run at hgroup
    cases hlist : Grammar.list Grammar.formula (.before [group] {}) with
    | error f c' =>
      rw [hlist] at hgroup
      cases hgroup
    | ok f c' =>
      rw [hlist] at hgroup
      obtain ⟨-, -, -, items, -, -, -, -, hf, hmatrix⟩ := hgroups _ f c' hlist
      refine ⟨f.note, items, c', by rw [← hf], ?_⟩
      by_contra! hall
      obtain ⟨m, hm⟩ := hmatrix.mpr hall
      obtain ⟨note, shape⟩ := f
      cases hm
      cases hgroup

end Formulary
