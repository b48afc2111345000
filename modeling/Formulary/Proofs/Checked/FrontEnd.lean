/-
# No text and no tokens are too much

Reading tokens, parsing them, storing the program and writing it, put together as checked runs.
No text leads any of them to a fault, nor does any row of tokens, whether it was read from a text or
not: what they give is what the front end gives.
-/
import Formulary.Editor
import Formulary.Proofs.Checked.Grammar
import Formulary.Proofs.Checked.Reading
import Formulary.Proofs.Checked.Storing
import Formulary.Proofs.Store.RoundTrip

namespace Formulary.Checked

open Text Parsing Store

/-- The program that a row of tokens is read as, in a store. -/
def parse (tokens : List (Located Token)) : Except Fault (Except Failure Store) := do
  match ← whole (TokenPlace.before tokens (Token.rowSpan tokens)) (definitions formula) with
  | .error f => return .error f
  | .ok ds => return .ok (← ofProgram (DefinitionSet.ofDefinitions ds))

/-- The program that a text is read as, in a store. -/
def parseText (text : List Char) : Except Fault (Except Failure Store) := do
  match ← lex text with
  | .error f => return .error f
  | .ok tokens => parse tokens

/-- The text of a program.  All its nodes have to be there. -/
def write (s : Store) : Except Fault String :=
  match s.write with
  | .ok text => .ok text
  | .error (.defect _) => .error .key
  | .error .endless => .error .endless

/-- The text set out anew, or a report on why it cannot be read. -/
def format (text : List Char) : Except Fault (Except String String) := do
  match ← parseText (unifyLineBreaks text) with
  | .error f => return .error (Editor.report f)
  | .ok s => return .ok (← write s)

/-- The problem of a text, if it has one. -/
def check (text : List Char) : Except Fault (Option Editor.Problem) := do
  match ← parseText (unifyLineBreaks text) with
  | .error f => return some ⟨f.message, f.span.start.byte, f.span.stop.byte⟩
  | .ok _ => return none

lemma parse_eq (tokens : List (Located Token)) :
    parse tokens = .ok (Store.ofProgram <$> DefinitionSet.ofTokens tokens) := by
  have hat := at_before tokens (Token.rowSpan tokens)
  unfold parse DefinitionSet.ofTokens Parsing.within
  rw [whole_eq (carriesOut_definitions carriesOut_formula) hat]
  dsimp only
  cases Grammar.definitions Grammar.formula (Cursor.before tokens (Token.rowSpan tokens)) with
  | error f c => rfl
  | ok ds c =>
    dsimp only [bind, Except.bind]
    cases c.atEnd with
    | true =>
      rw [if_pos rfl, if_pos rfl]
      dsimp only
      rw [ofProgram_eq]
      rfl
    | false => rfl

lemma parseText_eq (text : List Char) : parseText text = .ok (Store.ofText text) := by
  unfold parseText Store.ofText DefinitionSet.ofText
  rw [lex_eq]
  cases Token.ofText text with
  | error f => rfl
  | ok tokens => exact parse_eq tokens

/-- A program that was stored is written. -/
lemma write_eq (program : DefinitionSet.Placed) :
    write (Store.ofProgram program) = .ok (Layout.program program) := by
  rw [write, write_ofProgram]

lemma format_eq (text : List Char) : format text = .ok (Editor.format text) := by
  unfold format Editor.format
  rw [parseText_eq, Store.ofText]
  cases DefinitionSet.ofText (unifyLineBreaks text) with
  | error f => rfl
  | ok program =>
    have hwrite := write_eq program
    dsimp only [bind, Except.bind, Functor.map, Except.map]
    rw [hwrite]
    rfl

lemma check_eq (text : List Char) : check text = .ok (Editor.check text) := by
  unfold check Editor.check
  rw [parseText_eq, Store.ofText]
  cases DefinitionSet.ofText (unifyLineBreaks text) <;> rfl

/-- No text and no row of tokens leads the front end to a fault. -/
theorem front_end_meets_no_fault :
    (∀ text, lex text = .ok (Token.ofText text)) ∧
      (∀ tokens, parse tokens = .ok (Store.ofProgram <$> DefinitionSet.ofTokens tokens)) ∧
        (∀ text, parseText text = .ok (Store.ofText text)) ∧
          (∀ text, format text = .ok (Editor.format text)) ∧
            ∀ text, check text = .ok (Editor.check text) :=
  ⟨lex_eq, parse_eq, parseText_eq, format_eq, check_eq⟩

end Formulary.Checked
