/-
# Written programs read back

The text of a program consists of the lines of its definitions, so it is read as the program that
it says.
-/
import Formulary.Proofs.Layout.Restored
import Formulary.Proofs.Token.Spelling
import Formulary.Store.Text

namespace Formulary.Layout

open Text Word Parsing Token Grammar

variable {ε δ σ : Type} {ts us : List Token}

/-- Line breaks may be added at the end. -/
lemma lines_append_trails {β : Type} {R : List Token → β → Prop} {bs : List β} (h : Lines R ts bs)
    (hne : bs ≠ []) (hus : Trails us) : Lines R (ts ++ us) bs := by
  induction h with
  | nil => exact absurd rfl hne
  | @single ts vs b h hvs =>
    rw [List.append_assoc]
    exact .single h (List.forall_mem_append.mpr ⟨hvs, hus⟩)
  | @cons ts us' vs b c bs h hus' _ ih =>
    have hmore := Lines.cons h hus' (ih (by simp))
    simpa using hmore

/-- The lines of a program are those of its definitions. -/
lemma lines_eq (set : DefinitionSet ε δ σ) : lines set = set.definitions.map fun e =>
    definitionLine e.name (e.value.map (formula · 0)) := by
  obtain ⟨note, ds, floating⟩ := set
  rw [lines, definitionSet, definitions_eq_map, List.map_map]
  refine List.map_congr_left fun e _ => ?_
  obtain ⟨note, n, _ | value⟩ := e <;> rfl

lemma toList_program {set : DefinitionSet ε δ σ} (hne : lines set ≠ []) :
    (program set).toList = stacked 0 (lines set) ++ ['\n'] := by
  have hlines (s : String) (l : List String) :
      (String.join ((s :: l).map (· ++ "\n"))).toList = stacked 0 (s :: l) ++ ['\n'] := by
    induction l generalizing s with
    | nil => simp [stacked]
    | cons t l ih =>
      have hline : (newLine 0).toList = ['\n'] := by decide
      rw [stacked_cons_cons, hline, List.map_cons, String.join_cons, String.toList_append, ih t]
      simp
  rw [program]
  cases hl : lines set with
  | nil => exact absurd hl hne
  | cons s l => exact hlines s l

/-- The text of a program is read as tokens. -/
lemma isRow_program {set : DefinitionSet ε δ σ} (h : set.Throughout Safe) :
    ∃ ts q, Lines IsDefinition ts set.rereads ∧ IsRow none none (program set).toList ts q [] := by
  obtain ⟨note, ds, floating⟩ := set
  have hlines := @standsInLine_definitions _ _ _ 0 ds fun e he f hf =>
    restores (h f (DefinitionSet.mem_formulas_of_value he hf)) 0
  have heq := lines_eq (.node note ds floating)
  rw [DefinitionSet.definitions] at heq
  rw [← Definition.rereads_eq_map, ← heq] at hlines
  obtain ⟨-, ts, hts, hlex⟩ := lexes_stacked hlines
  cases ds with
  | nil =>
    refine ⟨[], none, ?_, isRow_nil (.inr shuts_nil)⟩
    rw [DefinitionSet.rereads, Definition.rereads]
    exact .nil
  | cons e ds =>
    have hne : lines (.node note (e :: ds) floating) ≠ [] := by simp [lines_eq, DefinitionSet.definitions]
    have hreads : Definition.rereads (e :: ds) ≠ [] := by simp [Definition.rereads_eq_map]
    have hleaves : Leaves 0 ['\n'] := by
      refine .inr fun n _ => ?_
      have hblank : isBlank '\n' = true := by decide
      simp [blockEnds, hblank]
    have hstacked : Emits none none (stacked 0 (lines (.node note (e :: ds) floating))) ts ['\n'] := by
      refine hlex (Nat.zero_le _) ?_ (stops_cons (by decide)) fun _ => hleaves
      rintro c ⟨⟩
    have hall := hstacked (emits_lastLine (isRow_nil (E := none) (.inr shuts_nil)))
    rw [List.append_nil] at hall
    rw [toList_program hne]
    exact ⟨_, _, lines_append_trails hts hreads (by simp [Trails]), hall⟩

/-- A text that is read as lines of definitions is read as the program of these definitions. -/
lemma exists_ofText_of_lines {cs : List Char} {q : Option Char} {ds : List Definition.Bare}
    (hts : Lines IsDefinition ts ds) (hrow : IsRow none none cs ts q []) :
    ∃ p, DefinitionSet.ofText cs = .ok p ∧ p.bare = .node () ds [] := by
  have hstart : (Cursor.ofText cs).Meets (Around none cs) :=
    ⟨⟨locate_values _ _, rfl⟩, fun f hf => by cases hf⟩
  obtain ⟨tokens, c, hread, hc⟩ := hrow.accepts hstart
  obtain ⟨p, hp, hbare⟩ := exists_ofTokens (hc.1.1.symm ▸ hts)
  refine ⟨p, ?_, hbare⟩
  have htokens : Token.ofText cs = .ok tokens := by
    have hend : c.atEnd = true := Cursor.Meets.atEnd_iff (hc.mono fun _ _ hr => hr.2) |>.mpr rfl
    unfold Token.ofText
    rw [hread]
    simp [hend]
  unfold DefinitionSet.ofText
  rw [htokens]
  exact hp

/-- The text of a program is read as the program that it says. -/
theorem exists_ofText_program {set : DefinitionSet ε δ σ} (h : set.Throughout Safe) :
    ∃ p, DefinitionSet.ofText (program set).toList = .ok p ∧ p.bare = set.reread := by
  obtain ⟨ts, q, hts, hrow⟩ := isRow_program h
  exact exists_ofText_of_lines hts hrow

/-- The line of a definition, with no line break behind it, is read as the definition. -/
lemma Means.exists_ofText {fr : Fragment} {f : Formula.Bare} (h : Means 0 fr f) (n : String) :
    ∃ p, DefinitionSet.ofText (name n ++ " = " ++ fr.text).toList = .ok p ∧
      p.bare = .node () [.node () n (some f)] [] := by
  obtain ⟨-, ts, us, hts, hus, hlex⟩ := standsInLine_definition h n
  have hopens : Opens none := by
    rintro c ⟨⟩
  have hline : Emits none none (name n ++ " = " ++ fr.text).toList (ts ++ us) [] :=
    hlex (Nat.zero_le _) hopens stops_nil fun _ => .inl shuts_nil
  have hrow := hline (isRow_nil (.inr shuts_nil))
  rw [List.append_nil, List.append_nil] at hrow
  exact exists_ofText_of_lines (.single hts hus) hrow

end Formulary.Layout
