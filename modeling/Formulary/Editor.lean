/-
# Services for an editor

An editor hands over a text with either kind of line breaks and wants it set out anew, or wants
to know what is wrong with it.  Offsets are counted in the text with unified line breaks.
-/
import Formulary.Store.Text
import Formulary.Text.LineBreak

namespace Formulary.Editor

open Text Parsing

/-- What is wrong with a text. -/
structure Problem where
  /-- What is reported. -/
  message : String
  /-- The byte at which the problem starts. -/
  start : Nat
  /-- The byte at which it ends. -/
  stop : Nat
deriving DecidableEq, Repr

/-- A failure with its place, on one line. -/
def report (f : Failure) : String := s!"{f.span.display}: {f.message}"

/-- The text set out anew, or a report on why it cannot be read. -/
def format (text : List Char) : Except String String :=
  match DefinitionSet.ofText (unifyLineBreaks text) with
  | .ok program => .ok (Layout.program program)
  | .error f => .error (report f)

/-- The problem of a text, if it has one. -/
def check (text : List Char) : Option Problem :=
  match DefinitionSet.ofText (unifyLineBreaks text) with
  | .ok _ => none
  | .error f => some ⟨f.message, f.span.start.byte, f.span.stop.byte⟩

end Formulary.Editor
