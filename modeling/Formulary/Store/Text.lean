/-
# Stored programs as text

A program is read from text into a store, and written from the store as text again.  What is
written is the view of the program, so writing has an answer whenever the part that is written
is a tree.
-/
import Formulary.Formula.Snapshot
import Formulary.Grammar
import Formulary.Layout.Formula
import Formulary.Store.Load
import Formulary.Store.View
import Formulary.Token.Reading

namespace Formulary

open Text Parsing

/-- Reads a program. -/
def DefinitionSet.ofText (text : List Char) : Except Failure DefinitionSet.Placed := do
  DefinitionSet.ofTokens (← Token.ofText text)

namespace Store

/-- Reads a program into a store. -/
def ofText (text : List Char) : Except Failure Store :=
  ofProgram <$> DefinitionSet.ofText text

/-- The text of a program. -/
def write (s : Store) : Except NoView String := Layout.program <$> s.view .written

/-- The text of a set of definitions. -/
def writeSet (s : Store) (key : SetKey) : Except NoView String :=
  Layout.set <$> s.viewSet .written key

/-- The text of a formula. -/
def writeFormula (s : Store) (key : FormulaKey) : Except NoView String :=
  Layout.standalone <$> s.viewFormula .written key

/-- The structure of a program. -/
def snapshot (s : Store) : Except NoView DefinitionSet.Bare :=
  DefinitionSet.snapshot <$> s.view .whole

end Store

end Formulary
