/-
# Line breaks that are unified again

Line breaks are unified whenever a text comes in, but what comes out may have pairs again: a longer
run of carriage returns is only shortened, and in a text a backslash may have kept a carriage return
and a line feed apart.  Where the words of the programs have no pairs, what is written is not
changed when it comes in the next time.
-/
import Formulary.Editor
import Formulary.Proofs.CommandLine.FileWise
import Formulary.Proofs.Layout.Pairs

namespace Formulary.CommandLine

open Text Parsing

variable {options : Options} {args : List String} {inputs : Inputs} {files : List Source}
  {out : String}

/-- The text of a source is read as a program. -/
def Source.ReadAs (s : Source) (program : DefinitionSet.Placed) : Prop :=
  ∃ text, s.text = .ok text ∧ DefinitionSet.ofText text = .ok program

lemma exists_program_of_fate {s : Source} (h : s.fate .program = .ok out) :
    ∃ program, s.ReadAs program ∧ out = Layout.program program := by
  rw [Source.fate_eq] at h
  obtain ⟨both, hboth, hshow⟩ := bind_attempt_ok h
  obtain ⟨file, hfile, hread⟩ := bind_attempt_ok hboth
  have hsource := attempt_ok hfile
  rw [readSource] at hsource
  rw [readBoth, readTokens] at hread
  rw [showFile, readProgram] at hshow
  split at hsource
  · rename_i text htext
    cases hsource
    cases htokens : Token.ofText text <;> rw [htokens] at hread <;> cases hread
    rename_i tokens
    cases hprogram : DefinitionSet.ofTokens tokens <;> rw [hprogram] at hshow <;> cases hshow
    rename_i program
    refine ⟨program, ⟨text, htext, ?_⟩, rfl⟩
    rw [DefinitionSet.ofText, htokens]
    exact hprogram
  · cases hsource

/-- What is shown of some sources are the programs that they are read as. -/
lemma exists_programs_of_passes (h : reportOf (passes .program files {}) = ⟨0, out, ""⟩) :
    ∃ programs, List.Forall₂ Source.ReadAs files programs ∧
      out = String.join (programs.map Layout.program) := by
  rcases reportOf_fates .program files with ⟨phase, -, hreport⟩ | ⟨texts, htexts, hreport⟩
  · rw [hreport] at h
    cases congrArg Report.code h
  · rw [hreport] at h
    cases h
    suffices ∃ programs, List.Forall₂ Source.ReadAs files programs ∧
        texts = programs.map Layout.program by
      obtain ⟨programs, hread, rfl⟩ := this
      exact ⟨programs, hread, rfl⟩
    clear hreport
    induction files generalizing texts with
    | nil =>
      rw [List.map_nil, eq_comm, List.map_eq_nil_iff] at htexts
      exact ⟨[], .nil, htexts⟩
    | cons s files ih =>
      obtain ⟨t, texts, rfl, hs, hmore⟩ := List.map_eq_cons_iff.mp htexts.symm
      obtain ⟨program, hread, rfl⟩ := exists_program_of_fate hs.symm
      obtain ⟨programs, hreads, rfl⟩ := ih texts hmore.symm
      exact ⟨program :: programs, .cons hread hreads, rfl⟩

/-- Written programs stay as they are exactly if none of their words has a pair. -/
lemma unifyLineBreaks_programs_eq_iff {ε δ σ : Type} (programs : List (DefinitionSet ε δ σ)) :
    let out := (String.join (programs.map Layout.program)).toList
    unifyLineBreaks out = out ↔ ∀ p ∈ programs, ¬AnyPaired p.words := by
  have hjoin := Layout.pairedIf_join fun p (_ : p ∈ programs) => Layout.pairedIf_program p
  dsimp only
  rw [unifyLineBreaks_eq_self_iff, hjoin.paired_iff]
  simp

/-- How far unifying line breaks goes.  After some passes another one changes nothing exactly if the
text has no longer run of carriage returns in front of a line feed, so one pass is enough exactly if
there are never two.  A text that was set out anew, and what a run shows of programs, is changed
exactly if one of the words of the programs has a pair. -/
theorem unified_again_iff (text : List Char) (args : List String) (inputs : Inputs) :
    (Paired (unifyLineBreaks text) ↔ returns 2 <:+: text) ∧
    (∀ k, unifyLineBreaks (unifyLineBreaks^[k] text) = unifyLineBreaks^[k] text ↔
      ¬returns (k + 1) <:+: text) ∧
    (∀ out, Editor.format text = .ok out → ∃ program,
      DefinitionSet.ofText (unifyLineBreaks text) = .ok program ∧ out = Layout.program program ∧
      (unifyLineBreaks out.toList = out.toList ↔ ¬AnyPaired program.words)) ∧
    (∀ options out, Options.ofArguments args = .ok options → options.output = .program →
      run args inputs = ⟨0, out, ""⟩ → ∃ programs,
        List.Forall₂ Source.ReadAs
          (sources inputs inputs.standardInput (origins options)) programs ∧
        out = String.join (programs.map Layout.program) ∧
        (unifyLineBreaks out.toList = out.toList ↔ ∀ p ∈ programs, ¬AnyPaired p.words)) := by
  refine ⟨returns_infix_unifyLineBreaks_iff, iterate_unifyLineBreaks_eq_iff, fun out hout => ?_,
    fun options out hoptions houtput hrun => ?_⟩
  · rw [Editor.format] at hout
    split at hout
    · rename_i program hprogram
      cases hout
      refine ⟨program, hprogram, rfl, ?_⟩
      rw [unifyLineBreaks_eq_self_iff, (Layout.pairedIf_program program).paired_iff]
    · cases hout
  · rw [run_of_ok hoptions, runOptions, houtput] at hrun
    obtain ⟨programs, hread, rfl⟩ := exists_programs_of_passes hrun
    exact ⟨programs, hread, rfl, unifyLineBreaks_programs_eq_iff programs⟩

/-- Two carriage returns in front of a line feed leave a pair in what is written, and so does a
backslash between a carriage return and a line feed. -/
theorem unified_again_of_returns :
    let inputs : Inputs := ⟨fun _ => .error .notFound, "x = \"\r\\\n\"\n".toUTF8⟩
    let written := "x = \"\r\n\"\n"
    Editor.format "x = \"\r\r\n\"\n".toList = .ok written ∧ run [] inputs = ⟨0, written, ""⟩ ∧
      unifyLineBreaks written.toList ≠ written.toList ∧
      (∃ program, DefinitionSet.ofText written.toList = .ok program ∧ AnyPaired program.words) ∧
      ∃ programs, List.Forall₂ Source.ReadAs [⟨.standardInput none, decode inputs.standardInput⟩]
        programs ∧ ∃ p ∈ programs, AnyPaired p.words := by
  intro inputs written
  have hoptions : Options.ofArguments [] = .ok ⟨[], .program⟩ := rfl
  have hformat : Editor.format "x = \"\r\r\n\"\n".toList = .ok written := by decide +kernel
  have hrun : run [] inputs = ⟨0, written, ""⟩ := by decide +kernel
  have hunified : unifyLineBreaks "x = \"\r\r\n\"\n".toList = written.toList := by decide +kernel
  have hchanged : unifyLineBreaks written.toList ≠ written.toList := by decide +kernel
  obtain ⟨-, -, hset, hshown⟩ := unified_again_iff "x = \"\r\r\n\"\n".toList [] inputs
  obtain ⟨program, hprogram, -, hagain⟩ := hset _ hformat
  obtain ⟨programs, hread, -, hagain'⟩ := hshown _ _ hoptions rfl hrun
  rw [hunified] at hprogram
  refine ⟨hformat, hrun, hchanged, ⟨program, hprogram, ?_⟩, programs, hread, ?_⟩
  · exact by_contra fun hnone => hchanged (hagain.mpr hnone)
  · by_contra hnone
    exact hchanged (hagain'.mpr fun p hp hpaired => hnone ⟨p, hp, hpaired⟩)

/-- One pass can leave a pair, which the next one finds. -/
theorem not_unified_at_once : Paired (unifyLineBreaks "\r\r\n".toList) ∧
    unifyLineBreaks (unifyLineBreaks "\r\r\n".toList) ≠ unifyLineBreaks "\r\r\n".toList := by
  decide

end Formulary.CommandLine
