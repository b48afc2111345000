/-
# A run file by file

A run takes all its files through one phase before the next one begins, and hands on only what the
files of a phase that went well have become.  Seen file by file, each file comes to something on
its own: to a text that is shown, or to a diagnostic in the phase in which it fails.  A run is put
together from that.  It ends at the first phase in which a file fails, and reports the files that
fail in it and no others; if there is no such phase, it shows what all files come to.

The phases are added one by one: what is put together from the files up to one phase is so up to
the next one.
-/
import Formulary.Proofs.CommandLine.Passes

namespace Formulary.CommandLine

open Text Parsing

variable {α β γ : Type}

/-! ## Files on their own -/

/-- Where a file can fail. -/
inductive Phase where
  /-- When it is read. -/
  | reading
  /-- When its tokens are read. -/
  | tokens
  /-- When its tokens are read as a program. -/
  | program
deriving DecidableEq, Repr

/-- The place of a phase in a run. -/
def Phase.rank : Phase → Nat
  | reading => 0
  | tokens => 1
  | program => 2

/-- What a file comes to: a value, or a diagnostic in the phase in which it fails. -/
abbrev Fate (α : Type) : Type := Except (Phase × Diagnostic) α

/-- A step that fails in a phase. -/
def Phase.attempt (phase : Phase) (step : α → Except Diagnostic β) (a : α) : Fate β :=
  (step a).mapError (Prod.mk phase)

/-- What a source comes to on its own. -/
def Source.fate (output : Output) (s : Source) : Fate String := do
  let file ← Phase.attempt .reading readSource s
  let both ← Phase.attempt .tokens readBoth file
  Phase.attempt .program (showFile output) both

/-- The file that a diagnostic names. -/
def Diagnostic.file : Diagnostic → String
  | unreadable file _ => file
  | malformed file _ => file

/-! ## Files together -/

/-- The first phase in which one of some files fails. -/
structure FailsFirst (fates : List (Fate α)) (phase : Phase) : Prop where
  fails : ∃ d, .error (phase, d) ∈ fates
  least : ∀ q d, .error (q, d) ∈ fates → phase.rank ≤ q.rank

/-- The diagnostic of a file that fails in a phase. -/
def diagnosticAt (phase : Phase) : Fate α → Option Diagnostic
  | .ok _ => none
  | .error (q, d) => if q = phase then some d else none

/-- Taking files through some phases together comes to what the files come to on their own: to the
diagnostics of the first phase in which files fail, or to all values. -/
def PutTogether (together : List α → Pass (List β)) (alone : α → Fate β) : Prop :=
  ∀ files, (∃ phase, FailsFirst (files.map alone) phase ∧ together files {} =
      .error () (Context.emitAll {} ((files.map alone).filterMap (diagnosticAt phase)))) ∨
    ∃ results, files.map alone = results.map .ok ∧ together files {} = .ok results {}

section attempt

variable {phase q : Phase} {step : β → Except Diagnostic γ} {b : β} {c : γ} {d : Diagnostic}
  {r : Fate β}

lemma attempt_ok (h : phase.attempt step b = .ok c) : step b = .ok c := by
  rw [Phase.attempt] at h
  cases hstep : step b <;> rw [hstep] at h <;> cases h
  rfl

lemma attempt_error (h : phase.attempt step b = .error (q, d)) :
    q = phase ∧ step b = .error d := by
  rw [Phase.attempt] at h
  cases hstep : step b <;> rw [hstep] at h <;> cases h
  exact ⟨rfl, rfl⟩

lemma bind_attempt_ok (h : (r >>= phase.attempt step) = .ok c) :
    ∃ b, r = .ok b ∧ step b = .ok c := by
  cases r with
  | error e => cases h
  | ok b => exact ⟨b, rfl, attempt_ok h⟩

/-- After one more phase, a file has failed before or fails in it. -/
lemma bind_attempt_error (h : (r >>= phase.attempt step) = .error (q, d)) :
    r = .error (q, d) ∨ q = phase ∧ ∃ b, r = .ok b ∧ step b = .error d := by
  cases r with
  | error e =>
    cases h
    exact .inl rfl
  | ok b =>
    obtain ⟨hphase, hstep⟩ := attempt_error h
    exact .inr ⟨hphase, b, rfl, hstep⟩

end attempt

/-- One more phase says nothing new of the phases before. -/
lemma filterMap_diagnosticAt_bind {first phase : Phase} (h : first ≠ phase)
    (step : β → Except Diagnostic γ) (fates : List (Fate β)) :
    (fates.map (· >>= phase.attempt step)).filterMap (diagnosticAt first) =
      fates.filterMap (diagnosticAt first) := by
  rw [List.filterMap_map]
  congr 1
  funext fate
  rcases fate with ⟨q, d⟩ | b
  · rfl
  · change diagnosticAt first ((step b).mapError (Prod.mk phase)) = none
    cases step b with
    | ok c => rfl
    | error d => exact if_neg h.symm

/-- If all files are there for a phase, the diagnostics of the phase are those of its pass. -/
lemma filterMap_diagnosticAt (phase : Phase) (step : β → Except Diagnostic γ) (results : List β) :
    (results.map (phase.attempt step)).filterMap (diagnosticAt phase) =
      diagnostics (results.map step) := by
  rw [diagnostics, List.filterMap_map, List.filterMap_map]
  congr 1
  funext b
  change diagnosticAt phase ((step b).mapError (Prod.mk phase)) = _
  cases hstep : step b with
  | ok c => rw [Function.comp_apply, hstep]; rfl
  | error d =>
    rw [Function.comp_apply, hstep]
    exact if_pos rfl

/-- A phase in which a file fails first stays the first one when a later phase is added. -/
lemma FailsFirst.bind {fates : List (Fate β)} {first phase : Phase} (h : FailsFirst fates first)
    (hlast : first.rank < phase.rank) (step : β → Except Diagnostic γ) :
    FailsFirst (fates.map (· >>= phase.attempt step)) first := by
  obtain ⟨⟨d, hd⟩, hleast⟩ := h
  refine ⟨⟨d, List.mem_map.mpr ⟨_, hd, rfl⟩⟩, fun q e he => ?_⟩
  obtain ⟨fate, hfate, hbind⟩ := List.mem_map.mp he
  rcases bind_attempt_error hbind with rfl | ⟨rfl, -⟩
  · exact hleast q e hfate
  · exact Nat.le_of_lt hlast

/-- If all files are there for a phase, it is the first one in which one of them fails. -/
lemma failsFirst_attempt {step : β → Except Diagnostic γ} {results : List β} {d : Diagnostic}
    (h : .error d ∈ results.map step) (phase : Phase) :
    FailsFirst (results.map (phase.attempt step)) phase := by
  obtain ⟨b, hb, hstep⟩ := List.mem_map.mp h
  refine ⟨⟨d, List.mem_map.mpr ⟨b, hb, by rw [Phase.attempt, hstep]; rfl⟩⟩, fun q e he => ?_⟩
  obtain ⟨b', -, hattempt⟩ := List.mem_map.mp he
  obtain ⟨rfl, -⟩ := attempt_error hattempt
  exact Nat.le_refl _

/-- One more phase. -/
lemma PutTogether.next {together : List α → Pass (List β)} {alone : α → Fate β}
    (h : PutTogether together alone) (phase : Phase) (step : β → Except Diagnostic γ)
    (hlast : ∀ a q d, alone a = .error (q, d) → q.rank < phase.rank) :
    PutTogether (fun files => together files >>= pass step)
      (fun a => alone a >>= phase.attempt step) := by
  intro files
  have hfates : files.map (fun a => alone a >>= phase.attempt step) =
      (files.map alone).map (· >>= phase.attempt step) := by rw [List.map_map]; rfl
  simp only [hfates]
  rcases h files with ⟨first, hfirst, htogether⟩ | ⟨results, hresults, htogether⟩
  · -- a file fails in a phase before, and the new one is not reached
    have hrank : first.rank < phase.rank := by
      obtain ⟨d, hd⟩ := hfirst.fails
      obtain ⟨a, -, ha⟩ := List.mem_map.mp hd
      exact hlast a first d ha
    have hne : first ≠ phase := by
      rintro rfl
      exact Nat.lt_irrefl _ hrank
    refine .inl ⟨first, hfirst.bind hrank step, ?_⟩
    rw [bind_of_error htogether, filterMap_diagnosticAt_bind hne]
  · have hmap : (files.map alone).map (· >>= phase.attempt step) =
        results.map (phase.attempt step) := by rw [hresults, List.map_map]; rfl
    rw [hmap, bind_of_ok htogether]
    rcases pass_cases step results Context.counted_start rfl with
      ⟨hds, hpass⟩ | ⟨values, hvalues, hpass⟩
    · obtain ⟨d, hd⟩ := List.exists_mem_of_ne_nil _ hds
      refine .inl ⟨phase, failsFirst_attempt (mem_diagnostics.mp hd) phase, ?_⟩
      rw [filterMap_diagnosticAt]
      exact hpass
    · refine .inr ⟨values, ?_, hpass⟩
      have hattempt : results.map (phase.attempt step) =
          (results.map step).map (Except.mapError (Prod.mk phase)) := by rw [List.map_map]; rfl
      rw [hattempt, hvalues, List.map_map]
      rfl

/-! ## The phases of a run -/

/-- No phase at all. -/
lemma putTogether_pure : PutTogether pure (.ok : α → Fate α) := fun files => .inr ⟨files, rfl, rfl⟩

/-- The phases of a source, the last one last. -/
lemma Source.fate_eq (output : Output) (s : Source) :
    s.fate output = (Phase.attempt .reading readSource s >>= Phase.attempt .tokens readBoth) >>=
      Phase.attempt .program (showFile output) :=
  (bind_assoc _ _ _).symm

lemma putTogether_fate (output : Output) : PutTogether (carry output) (Source.fate output) := by
  have hcarry : carry output =
      fun sources => (pass readSource sources >>= pass readBoth) >>= pass (showFile output) :=
    funext fun sources => (bind_assoc _ _ _).symm
  rw [funext (Source.fate_eq output), hcarry]
  have hreading : PutTogether (pass readSource) (Phase.attempt .reading readSource) :=
    putTogether_pure.next .reading readSource nofun
  refine (hreading.next .tokens readBoth fun s q d h => ?_).next .program _ fun s q d h => ?_
  · obtain ⟨rfl, -⟩ := attempt_error h
    exact Nat.zero_lt_one
  · rcases bind_attempt_error h with hreading | ⟨rfl, -⟩
    · obtain ⟨rfl, -⟩ := attempt_error hreading
      exact Nat.zero_lt_two
    · exact Nat.one_lt_two

/-- What a run leaves behind: the diagnostics of the first phase in which a source fails, or what
all sources come to. -/
lemma reportOf_fates (output : Output) (sources : List Source) :
    (∃ phase, FailsFirst (sources.map (Source.fate output)) phase ∧
        reportOf (passes output sources {}) = ⟨1, "", String.join (((sources.map
          (Source.fate output)).filterMap (diagnosticAt phase)).map Diagnostic.display)⟩) ∨
      ∃ texts, sources.map (Source.fate output) = texts.map .ok ∧
        reportOf (passes output sources {}) = ⟨0, String.join texts, ""⟩ := by
  rw [reportOf_passes]
  rcases putTogether_fate output sources with ⟨phase, hfirst, hcarry⟩ | ⟨texts, htexts, hcarry⟩
  · refine .inl ⟨phase, hfirst, ?_⟩
    rw [hcarry, carriedReport, Context.reported_emitAll]
    rfl
  · refine .inr ⟨texts, htexts, ?_⟩
    rw [hcarry]
    rfl

/-! ## Runs -/

namespace Origin

/-- Whether it is the standard input. -/
def isStandardInput : Origin → Bool
  | standardInput _ => true
  | file _ => false

/-- The files to be named for reading this alone. -/
def files : Origin → List String
  | standardInput path => path.toList
  | file path => [path]

/-- How it is named in the diagnostics of a phase. -/
def nameIn (origin : Origin) : Phase → String
  | .reading => origin.label
  | .tokens | .program => origin.name

/-- What can still be read after it. -/
def leave (inputs : Inputs) : Origin → Inputs
  | standardInput _ => { inputs with standardInput := .empty }
  | file _ => inputs

end Origin

/-- An origin in a run, with what can be read when it is its turn. -/
structure Turn where
  /-- What is read. -/
  origin : Origin
  /-- What can be read. -/
  inputs : Inputs

/-- The turns of a run. -/
def turns (inputs : Inputs) : List Origin → List Turn
  | [] => []
  | origin :: rest => ⟨origin, inputs⟩ :: turns (origin.leave inputs) rest

namespace Turn

/-- The source that is read. -/
def source (t : Turn) : Source :=
  ⟨t.origin,
    match t.origin with
    | .standardInput _ => decode t.inputs.standardInput
    | .file path => t.inputs.file path >>= decode⟩

/-- What it comes to. -/
def fate (output : Output) (t : Turn) : Fate String := t.source.fate output

/-- The report of a run of its own. -/
def report (output : Output) (t : Turn) : Report := runOptions ⟨t.origin.files, output⟩ t.inputs

end Turn

/-- The report on a single file. -/
def Fate.report : Fate String → Report
  | .ok text => ⟨0, text, ""⟩
  | .error (_, d) => ⟨1, "", d.display⟩

variable {inputs : Inputs} {options : Options} {output : Output} {t : Turn} {o : Origin}

lemma sources_eq (file : String → Except ReadError ByteArray) (standardInput b : ByteArray)
    (os : List Origin) :
    sources ⟨file, b⟩ standardInput os = (turns ⟨file, standardInput⟩ os).map Turn.source := by
  induction os generalizing standardInput with
  | nil => rfl
  | cons o os ih => cases o <;> exact congrArg (_ :: ·) (ih _)

/-- An origin of a run is the origin of a run of its own. -/
lemma origins_files (h : o ∈ origins options) (output : Output) :
    origins ⟨o.files, output⟩ = [o] := by
  rw [origins] at h
  split at h
  · obtain rfl := List.mem_singleton.mp h
    rfl
  · obtain ⟨path, -, rfl⟩ := List.mem_map.mp h
    have hfiles : (Origin.ofPath path).files = [path] := by
      rw [Origin.ofPath]
      split <;> rfl
    rw [hfiles]
    rfl

lemma origin_mem_of_mem_turns {os : List Origin} (h : t ∈ turns inputs os) : t.origin ∈ os := by
  induction os generalizing inputs with
  | nil => cases h
  | cons o os ih =>
    rcases List.mem_cons.mp h with rfl | h
    · exact List.mem_cons_self
    · exact List.mem_cons_of_mem _ (ih h)

/-- A run of one file. -/
lemma runOptions_files (h : o ∈ origins options) (inputs : Inputs) (output : Output) :
    runOptions ⟨o.files, output⟩ inputs =
      ((⟨o, inputs⟩ : Turn).fate output).report := by
  have hsources : sources inputs inputs.standardInput [o] = [(⟨o, inputs⟩ : Turn).source] :=
    sources_eq inputs.file inputs.standardInput inputs.standardInput [o]
  rw [runOptions, origins_files h, hsources]
  rcases reportOf_fates output [(⟨o, inputs⟩ : Turn).source] with
    ⟨phase, ⟨⟨d, hd⟩, -⟩, hreport⟩ | ⟨texts, htexts, hreport⟩
  · have hfate : .error (phase, d) = (⟨o, inputs⟩ : Turn).fate output := List.mem_singleton.mp hd
    rw [hreport, List.map_singleton, ← Turn.fate, ← hfate]
    simp [diagnosticAt, Fate.report, String.join]
  · obtain ⟨text, rfl, htext⟩ : ∃ text, texts = [text] ∧
        (⟨o, inputs⟩ : Turn).fate output = .ok text := by
      rcases texts with _ | ⟨text, _ | ⟨text', texts⟩⟩
      · cases htexts
      · exact ⟨text, rfl, List.singleton_inj.mp htexts⟩
      · cases congrArg List.length htexts
    rw [hreport, htext]
    simp [Fate.report, String.join]

section names

variable {s : Source} {file : SourceFile} {both : SourceFile × List (Located Token)}
  {d : Diagnostic}

lemma file_of_readSource (h : readSource s = .error d) : d.file = s.origin.label := by
  rw [readSource] at h
  split at h <;> cases h
  rfl

lemma name_of_readSource (h : readSource s = .ok file) : file.name = s.origin.name := by
  rw [readSource] at h
  split at h <;> cases h
  rfl

lemma file_of_mapError {x : Except Failure α} {name : String}
    (h : x.mapError (.malformed name) = .error d) : d.file = name := by
  cases x <;> cases h
  rfl

lemma error_of_map {x : Except Diagnostic α} {f : α → β} (h : x.map f = .error d) :
    x = .error d := by
  cases x <;> cases h
  rfl

lemma file_of_readBoth (h : readBoth file = .error d) : d.file = file.name :=
  file_of_mapError (error_of_map h)

lemma name_of_readBoth (h : readBoth file = .ok both) : both.1 = file := by
  rw [readBoth] at h
  cases hread : readTokens file <;> rw [hread] at h <;> cases h
  rfl

lemma file_of_showFile (h : showFile output both = .error d) : d.file = both.1.name := by
  cases output with
  | tokens format => cases h
  | tree format => exact file_of_mapError (error_of_map h)
  | program => exact file_of_mapError (error_of_map h)

/-- A file that fails is named in its diagnostic. -/
lemma file_of_fate {phase : Phase} (h : s.fate output = .error (phase, d)) :
    d.file = s.origin.nameIn phase := by
  rw [Source.fate_eq] at h
  rcases bind_attempt_error h with h | ⟨rfl, both, hboth, hshow⟩
  · rcases bind_attempt_error h with h | ⟨rfl, file, hfile, hread⟩
    · obtain ⟨rfl, hsource⟩ := attempt_error h
      exact file_of_readSource hsource
    · exact (file_of_readBoth hread).trans (name_of_readSource (attempt_ok hfile))
  · obtain ⟨file, hfile, hread⟩ := bind_attempt_ok hboth
    calc d.file = both.1.name := file_of_showFile hshow
      _ = file.name := by rw [name_of_readBoth hread]
      _ = s.origin.name := name_of_readSource (attempt_ok hfile)

end names

/-- If the standard input is read once at most, then nothing is missing in any turn. -/
lemma source_of_mem_turns {os : List Origin} (hos : os.countP Origin.isStandardInput ≤ 1)
    (h : t ∈ turns inputs os) : t.source = (⟨t.origin, inputs⟩ : Turn).source := by
  induction os generalizing inputs with
  | nil => cases h
  | cons o os ih =>
    rw [List.countP_cons] at hos
    rcases List.mem_cons.mp h with rfl | h
    · rfl
    · cases o with
      | file path => exact ih hos h
      | standardInput path =>
        have hnone : os.countP Origin.isStandardInput = 0 := by
          simpa [Origin.isStandardInput] using hos
        have hfile := List.countP_eq_zero.mp hnone _ (origin_mem_of_mem_turns h)
        rw [ih (by rw [hnone]; exact Nat.zero_le 1) h]
        cases horigin : t.origin with
        | file path => rfl
        | standardInput path => exact absurd (by rw [horigin]; rfl) hfile

lemma run_of_ok {args : List String} (h : Options.ofArguments args = .ok options) :
    run args inputs = runOptions options inputs := by
  rw [run, h]

/-- What a run leaves behind, file by file.  Each file named on the command line has its turn, and
in its turn it comes to what a run of its own comes to with what can still be read then.  The run
ends at the first phase in which a file fails, with the diagnostics of the files that fail in it,
each of which names its file; if there is none, it shows what the runs of the files show.  Only the
standard input cannot be read twice. -/
theorem run_file_wise {args : List String} (h : Options.ofArguments args = .ok options)
    (inputs : Inputs) :
    let ts := turns inputs (origins options)
    (∀ t ∈ ts, t.report options.output = (t.fate options.output).report ∧
      ∀ phase d, t.fate options.output = .error (phase, d) → d.file = t.origin.nameIn phase) ∧
    ((∃ phase, FailsFirst (ts.map (Turn.fate options.output)) phase ∧
        run args inputs = ⟨1, "", String.join (((ts.map (Turn.fate options.output)).filterMap
          (diagnosticAt phase)).map Diagnostic.display)⟩) ∨
      (∀ t ∈ ts, ∃ text, t.fate options.output = .ok text) ∧
        run args inputs = ⟨0, String.join (ts.map fun t => (t.report options.output).output), ""⟩) ∧
    ((origins options).countP Origin.isStandardInput ≤ 1 →
      ∀ t ∈ ts, t.report options.output = runOptions ⟨t.origin.files, options.output⟩ inputs) := by
  intro ts
  have hreport : ∀ t ∈ ts, t.report options.output = (t.fate options.output).report :=
    fun t ht => runOptions_files (origin_mem_of_mem_turns ht) t.inputs options.output
  refine ⟨fun t ht => ⟨hreport t ht, fun phase d => file_of_fate⟩, ?_, fun honce t ht => ?_⟩
  · have hsources : sources inputs inputs.standardInput (origins options) =
        ts.map Turn.source :=
      sources_eq inputs.file inputs.standardInput inputs.standardInput (origins options)
    have hfates : (ts.map Turn.source).map (Source.fate options.output) =
        ts.map (Turn.fate options.output) := by
      rw [List.map_map]
      rfl
    -- either a first phase fails, or every turn gives a text
    have hcases := reportOf_fates options.output (ts.map Turn.source)
    rw [hfates, ← hsources] at hcases
    rw [run_of_ok h, runOptions]
    rcases hcases with hfails | ⟨texts, htexts, hreported⟩
    · exact .inl hfails
    · refine .inr ⟨fun t ht => ?_, ?_⟩
      · have hmem : t.fate options.output ∈ texts.map Except.ok :=
          htexts ▸ List.mem_map_of_mem ht
        obtain ⟨text, -, htext⟩ := List.mem_map.mp hmem
        exact ⟨text, htext.symm⟩
      · have houtputs : (ts.map fun t => (t.report options.output).output) = texts := by
          calc (ts.map fun t => (t.report options.output).output)
              = (ts.map (Turn.fate options.output)).map fun fate => fate.report.output := by
                rw [List.map_map]
                exact List.map_congr_left fun t ht => by rw [hreport t ht]; rfl
            _ = texts := by
                rw [htexts, List.map_map]
                exact List.map_id texts
        rw [hreported, houtputs]
  · rw [hreport t ht, Turn.fate, source_of_mem_turns honce ht,
      runOptions_files (origin_mem_of_mem_turns ht), Turn.fate]

/-- A file and the standard input. -/
theorem run_file_wise_of_two :
    let inputs : Inputs := ⟨fun path =>
      if path = "a" then .ok "x = 1\n".toUTF8 else .error .notFound, "y = x".toUTF8⟩
    run ["a", "-"] inputs =
      ⟨0, (run ["a"] inputs).output ++ (run ["-"] inputs).output, ""⟩ := by
  intro inputs
  have hoptions : Options.ofArguments ["a", "-"] = .ok ⟨["a", "-"], .program⟩ := rfl
  obtain ⟨-, hrun, -⟩ := run_file_wise hoptions inputs
  have hturns : turns inputs (origins ⟨["a", "-"], .program⟩) =
      [⟨.file "a", inputs⟩, ⟨.standardInput (some "-"), inputs⟩] := by
    have horigins : origins ⟨["a", "-"], .program⟩ = [.file "a", .standardInput (some "-")] := by
      decide +kernel
    rw [horigins]
    rfl
  rw [hturns] at hrun
  rcases hrun with ⟨phase, ⟨⟨d, hd⟩, -⟩, -⟩ | ⟨-, hrun⟩
  · have hfine : ∀ t ∈ ([⟨.file "a", inputs⟩, ⟨.standardInput (some "-"), inputs⟩] : List Turn),
        (t.fate .program).toOption.isSome = true := by
      simp only [List.forall_mem_cons, List.not_mem_nil, false_imp_iff, implies_true, and_true]
      decide +kernel
    obtain ⟨t, ht, hfate⟩ := List.mem_map.mp hd
    have hsome := hfine t ht
    rw [hfate] at hsome
    cases hsome
  · rw [hrun]
    have hfile : run ["a"] inputs = (⟨.file "a", inputs⟩ : Turn).report .program :=
      run_of_ok (show Options.ofArguments ["a"] = .ok ⟨["a"], .program⟩ from rfl)
    have hinput : run ["-"] inputs =
        (⟨.standardInput (some "-"), inputs⟩ : Turn).report .program :=
      run_of_ok (show Options.ofArguments ["-"] = .ok ⟨["-"], .program⟩ from rfl)
    have hjoin (a b : String) : String.join [a, b] = a ++ b := by simp [String.join]
    rw [hfile, hinput, List.map_cons, List.map_cons, List.map_nil, hjoin]

/-- The standard input is read once only, although it can be named again. -/
theorem not_run_file_wise_repeated :
    let inputs : Inputs := ⟨fun _ => .error .notFound, "x = 1\n".toUTF8⟩
    run ["-"] inputs = ⟨0, "x = 1\n", ""⟩ ∧
      run ["-", "-"] inputs ≠
        ⟨0, (run ["-"] inputs).output ++ (run ["-"] inputs).output, ""⟩ := by
  intro inputs
  have honce : run ["-"] inputs = ⟨0, "x = 1\n", ""⟩ := by decide +kernel
  have htwice : run ["-", "-"] inputs = ⟨0, "x = 1\n", ""⟩ := by decide +kernel
  rw [honce, htwice]
  exact ⟨rfl, by decide⟩

end Formulary.CommandLine
