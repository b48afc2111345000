/-
# Passes

A pass takes a row of items through a step and reports the items that fail.  The rows that it hands
on have no names in them, so a later pass finds the file of some tokens by its place, and only the
number of diagnostics tells whether there is a later pass.  Both are right.  The number counts the
diagnostics, so a run goes on only if nothing is left out of a row; then the rows of the files and
of what they have become match place by place, and the pass might as well carry each file along.
-/
import Formulary.CommandLine.Run
import Formulary.Proofs.Data.Lists
import Formulary.Proofs.Data.Results

namespace Formulary.CommandLine

open Text

variable {α β γ : Type} {c : Context}

/-! ## The diagnostics of a run -/

/-- The number of diagnostics is right. -/
def Context.Counted (c : Context) : Prop := c.errors = c.reported.length

/-- Diagnostics that are emitted one after the other. -/
def Context.emitAll (c : Context) (ds : List Diagnostic) : Context := ds.foldl Context.emit c

namespace Context

lemma counted_start : Counted {} := rfl

lemma Counted.emit (h : c.Counted) (d : Diagnostic) : (c.emit d).Counted := by
  rw [Counted, Context.emit, List.length_append, ← h]
  rfl

lemma Counted.emitAll (h : c.Counted) (ds : List Diagnostic) : (c.emitAll ds).Counted := by
  induction ds generalizing c with
  | nil => exact h
  | cons d ds ih => exact ih (h.emit d)

lemma reported_emitAll (c : Context) (ds : List Diagnostic) :
    (c.emitAll ds).reported = c.reported ++ ds := by
  induction ds generalizing c with
  | nil => exact (List.append_nil _).symm
  | cons d ds ih => exact (ih (c.emit d)).trans (List.append_assoc _ _ _)

lemma shown_emitAll (c : Context) (ds : List Diagnostic) : (c.emitAll ds).shown = c.shown := by
  induction ds generalizing c with
  | nil => rfl
  | cons d ds ih => exact ih (c.emit d)

lemma Counted.hasErrors_iff (h : c.Counted) : c.hasErrors = true ↔ c.reported ≠ [] := by
  rw [hasErrors, decide_eq_true_iff, h, List.length_pos_iff]

/-- Whether there are diagnostics can be told from their number. -/
lemma Counted.hasErrors_emitAll (h : c.Counted) (hnone : c.reported = []) (ds : List Diagnostic) :
    (c.emitAll ds).hasErrors = true ↔ ds ≠ [] := by
  rw [(h.emitAll ds).hasErrors_iff, reported_emitAll, hnone, List.nil_append]

end Context

/-! ## One pass -/

/-- The diagnostics among some results. -/
def diagnostics (results : List (Except Diagnostic α)) : List Diagnostic :=
  results.filterMap fun
    | .ok _ => none
    | .error d => some d

/-- The values among some results. -/
def values (results : List (Except Diagnostic α)) : List α :=
  results.filterMap Except.toOption

lemma mem_diagnostics {results : List (Except Diagnostic α)} {d : Diagnostic} :
    d ∈ diagnostics results ↔ .error d ∈ results := by
  rw [diagnostics, List.mem_filterMap]
  constructor
  · rintro ⟨e | a, hr, heq⟩
    · cases heq
      exact hr
    · cases heq
  · exact fun h => ⟨_, h, rfl⟩

/-- If nothing failed, the values are all there is. -/
lemma map_ok_values {results : List (Except Diagnostic α)} (h : diagnostics results = []) :
    results = (values results).map .ok := by
  induction results with
  | nil => rfl
  | cons r results ih =>
    cases r with
    | ok a => exact congrArg (Except.ok a :: ·) (ih h)
    | error d => cases h

variable {step : α → Except Diagnostic β} {items : List α} {results : List β}

/-- Every item adds to the row or to the diagnostics, in the order of the items. -/
lemma takeThrough_eq (step : α → Except Diagnostic β) (items : List α) (c : Context) :
    takeThrough step items c =
      .ok (values (items.map step)) (c.emitAll (diagnostics (items.map step))) := by
  induction items generalizing c with
  | nil => rfl
  | cons a items ih =>
    rw [takeThrough, List.map_cons]
    cases step a with
    | ok b =>
      change (takeThrough step items >>= fun results => return b :: results) c = _
      rw [bind_of_ok (ih c)]
      rfl
    | error d => exact ih (c.emit d)

lemma pass_eq (step : α → Except Diagnostic β) (items : List α) (c : Context) :
    pass step items c =
      if (c.emitAll (diagnostics (items.map step))).hasErrors then
        .error () (c.emitAll (diagnostics (items.map step)))
      else .ok (values (items.map step)) (c.emitAll (diagnostics (items.map step))) := by
  rw [pass, bind_of_ok (takeThrough_eq step items c)]
  change (if _ then throw () else pure _ : Pass (List β)) _ = _
  split <;> rfl

/-- A pass goes well for all items and leaves nothing behind, or reports those that fail. -/
lemma pass_cases (step : α → Except Diagnostic β) (items : List α) (hcounted : c.Counted)
    (hnone : c.reported = []) :
    diagnostics (items.map step) ≠ [] ∧
        pass step items c = .error () (c.emitAll (diagnostics (items.map step))) ∨
      ∃ results, items.map step = results.map .ok ∧ pass step items c = .ok results c := by
  have herrors := hcounted.hasErrors_emitAll hnone (diagnostics (items.map step))
  rw [pass_eq]
  by_cases hds : diagnostics (items.map step) = []
  · refine .inr ⟨_, map_ok_values hds, ?_⟩
    rw [if_neg fun h => herrors.mp h hds, hds]
    rfl
  · exact .inl ⟨hds, if_pos (herrors.mpr hds)⟩

/-! ## Rows side by side -/

/-- What is made of an item and what it has become does not change what is reported. -/
lemma diagnostics_map (step : α → Except Diagnostic β) (f : α → β → γ) (items : List α) :
    diagnostics (items.map fun a => (step a).map (f a)) = diagnostics (items.map step) := by
  rw [diagnostics, diagnostics, List.filterMap_map, List.filterMap_map]
  congr 1
  funext a
  simp only [Function.comp_apply]
  cases step a <;> rfl

lemma values_map (f : α → β → γ) (h : List.Forall₂ (fun a b => step a = .ok b) items results) :
    values (items.map fun a => (step a).map (f a)) = List.zipWith f items results := by
  induction h with
  | nil => rfl
  | cons hstep _ ih =>
    rw [List.map_cons, hstep]
    exact congrArg (_ :: ·) ih

/-- If a run goes on after a pass, the new row has at each place what the item at that place has
become; so what is made of the two items at a place might as well be made in the pass. -/
lemma pass_zipWith (step : α → Except Diagnostic β) (f : α → β → γ) (items : List α)
    (hcounted : c.Counted) (hnone : c.reported = []) :
    (∃ ds, ds ≠ [] ∧ pass step items c = .error () (c.emitAll ds) ∧
        pass (fun a => (step a).map (f a)) items c = .error () (c.emitAll ds)) ∨
      ∃ results, List.Forall₂ (fun a b => step a = .ok b) items results ∧
        pass step items c = .ok results c ∧
        pass (fun a => (step a).map (f a)) items c = .ok (List.zipWith f items results) c := by
  have hpass := pass_eq (fun a => (step a).map (f a)) items c
  rw [diagnostics_map] at hpass
  rcases pass_cases step items hcounted hnone with ⟨hds, herror⟩ | ⟨results, hmap, hok⟩
  · have herrors := (hcounted.hasErrors_emitAll hnone _).mpr hds
    exact .inl ⟨_, hds, herror, hpass.trans (if_pos herrors)⟩
  · have hrows : List.Forall₂ (fun a b => step a = .ok b) items results :=
      forall₂_iff_map_eq.mpr hmap
    have hds : diagnostics (items.map step) = [] := by
      rw [hmap, diagnostics, List.filterMap_map]
      exact List.filterMap_none _
    rw [hds, values_map f hrows] at hpass
    refine .inr ⟨results, hrows, hok, hpass.trans (if_neg fun h => ?_)⟩
    exact (hcounted.hasErrors_emitAll hnone []).mp h rfl

/-- A step that cannot fail. -/
lemma pass_ok (f : α → β) (items : List α) (hcounted : c.Counted) (hnone : c.reported = []) :
    pass (fun a => .ok (f a)) items c = .ok (items.map f) c := by
  rcases pass_cases (fun a => .ok (f a)) items hcounted hnone with ⟨hds, -⟩ | ⟨bs, hbs, hok⟩
  · obtain ⟨d, hd⟩ := List.exists_mem_of_ne_nil _ hds
    obtain ⟨a, -, ha⟩ := List.mem_map.mp (mem_diagnostics.mp hd)
    cases ha
  · have hmap : (items.map f).map Except.ok = bs.map (Except.ok (ε := Diagnostic)) := by
      rw [← hbs, List.map_map]
      rfl
    rw [hok, (List.map_inj_right fun _ _ h => Except.ok.inj h).mp hmap]

/-! ## A run with its files carried along -/

/-- A file and its tokens. -/
def readBoth (file : SourceFile) : Except Diagnostic (SourceFile × List (Located Token)) :=
  (readTokens file).map (Prod.mk file)

/-- What is shown of a file and its tokens. -/
def showFile (output : Output) (file : SourceFile × List (Located Token)) :
    Except Diagnostic String :=
  match output with
  | .tokens format => .ok (showTokens format file.2)
  | .tree format => (readProgram file).map fun program => showTree format program.snapshot
  | .program => (readProgram file).map Layout.program

/-- A run in which each file is carried along with its tokens and shown for itself. -/
def carry (output : Output) (sources : List Source) : Pass (List String) := do
  let files ← pass readSource sources
  let both ← pass readBoth files
  pass (showFile output) both

/-- What a run leaves behind if its files are carried along. -/
def carriedReport : EStateM.Result Unit Context (List String) → Report
  | .ok texts _ => ⟨0, String.join texts, ""⟩
  | .error _ c => ⟨1, "", String.join (c.reported.map Diagnostic.display)⟩

/-- A run that ends with diagnostics. -/
lemma reportOf_error {ds : List Diagnostic} (h : ds ≠ []) :
    reportOf (.error () (Context.emitAll {} ds)) =
      carriedReport (.error () (Context.emitAll {} ds)) := by
  rw [reportOf, (Context.counted_start.hasErrors_emitAll rfl ds).mpr h, Context.report,
    Context.shown_emitAll]
  rfl

/-- The end of a run that shows something of each program. -/
lemma reportOf_programs {rest : List DefinitionSet.Placed → Pass Unit}
    {display : DefinitionSet.Placed → String} (files : List (SourceFile × List (Located Token)))
    (h : ∀ programs, reportOf (rest programs {}) =
      ⟨0, String.join (programs.map display), ""⟩) :
    reportOf ((pass readProgram files >>= rest) {}) =
      carriedReport (pass (fun file => (readProgram file).map display) files {}) := by
  rcases pass_zipWith readProgram (fun _ => display) files Context.counted_start rfl with
    ⟨ds, hds, hprograms, hshown⟩ | ⟨programs, hrows, hprograms, hshown⟩
  · rw [bind_of_error hprograms, hshown, reportOf_error hds]
  · rw [bind_of_ok hprograms, hshown, zipWith_const display hrows, h]
    rfl

/-- The rows match, so the files might as well be carried along. -/
lemma reportOf_passes (output : Output) (sources : List Source) :
    reportOf (passes output sources {}) = carriedReport (carry output sources {}) := by
  rw [passes, carry]
  rcases pass_cases readSource sources Context.counted_start rfl with
    ⟨hds, hread⟩ | ⟨files, -, hread⟩
  · rw [bind_of_error hread, bind_of_error hread, reportOf_error hds]
  rw [bind_of_ok hread, bind_of_ok hread]
  rcases pass_zipWith readTokens Prod.mk files Context.counted_start rfl with
    ⟨ds, hds, htokens, hboth⟩ | ⟨tokens, hrows, htokens, hboth⟩
  · change pass readBoth files {} = _ at hboth
    rw [bind_of_error htokens, bind_of_error hboth, reportOf_error hds]
  change pass readBoth files {} = .ok (files.zip tokens) {} at hboth
  rw [bind_of_ok htokens, bind_of_ok hboth]
  cases output with
  | tokens format =>
    have hshown : (files.zip tokens).map (fun file => showTokens format file.2) =
        tokens.map (showTokens format) := by
      rw [List.zip, List.map_zipWith]
      exact zipWith_const (showTokens format) hrows
    have hpass := pass_ok (fun file => showTokens format file.2) (files.zip tokens)
      Context.counted_start rfl
    rw [hshown] at hpass
    change pass (showFile (.tokens format)) (files.zip tokens) {} = _ at hpass
    rw [hpass]
    rfl
  | tree format => exact reportOf_programs _ fun programs => rfl
  | program => exact reportOf_programs _ fun programs => rfl

end Formulary.CommandLine
