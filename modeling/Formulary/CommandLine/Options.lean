/-
# What a run shows

A run ends after one of three stages and shows the outcome in one of three formats, not all of
which suit every stage.  An `Output` is a stage with a format that suits it.
-/
import Formulary.Outline.Formula
import Formulary.Outline.Token
import Formulary.Store.Text

namespace Formulary.CommandLine

open Text Parsing

/-- Where a run ends. -/
inductive Stage where
  /-- After reading tokens. -/
  | lexer
  /-- After reading the program. -/
  | parser
  /-- After writing the program. -/
  | writer
deriving DecidableEq, Repr

/-- How the outcome of a stage is shown. -/
inductive Format where
  /-- For people who write programs. -/
  | pretty
  /-- As a debugging description. -/
  | debug
  /-- As records. -/
  | ron
deriving DecidableEq, Repr

/-- The stage with a name. -/
def Stage.ofName? (name : String) : Option Stage :=
  [("lexer", lexer), ("parser", parser), ("writer", writer)].lookup name

/-- The format with a name. -/
def Format.ofName? (name : String) : Option Format :=
  [("pretty", pretty), ("debug", debug), ("ron", ron)].lookup name

/-- How the structure of a program is shown. -/
inductive TreeFormat where
  /-- As a debugging description. -/
  | debug
  /-- As records. -/
  | ron
deriving DecidableEq, Repr

/-- What a run shows for each file. -/
inductive Output where
  /-- Its tokens. -/
  | tokens (format : Format)
  /-- Its structure. -/
  | tree (format : TreeFormat)
  /-- The program as it is written. -/
  | program
deriving DecidableEq, Repr

/-- A format that does not suit its stage. -/
inductive Mismatch where
  /-- The structure of a program has no pretty form but the program itself. -/
  | prettyTree
  /-- A program is written in the pretty form only. -/
  | writtenProgram
deriving DecidableEq, Repr

/-- What is reported. -/
def Mismatch.message : Mismatch → String
  | prettyTree => "use the writer stage to pretty-print the syntax tree"
  | writtenProgram => "the writer stage only supports the pretty format"

/-- The output for a stage, with a format or without one. -/
def Output.of (stage : Stage) (format : Option Format) : Except Mismatch Output :=
  match stage, format with
  | .lexer, format => .ok (.tokens (format.getD .pretty))
  | .parser, none => .ok (.tree .ron)
  | .parser, some .ron => .ok (.tree .ron)
  | .parser, some .debug => .ok (.tree .debug)
  | .parser, some .pretty => .error .prettyTree
  | .writer, none => .ok .program
  | .writer, some .pretty => .ok .program
  | .writer, some _ => .error .writtenProgram

/-- The text that shows tokens. -/
def showTokens (format : Format) (tokens : List (Located Token)) : String :=
  match format with
  | .pretty => Token.listings 0 tokens
  | .debug => (Outline.list (Token.outlines tokens)).toText .debug
  | .ron => (Outline.list (Token.outlines tokens)).toText .record

/-- The text that shows the structure of a program. -/
def showTree (format : TreeFormat) (program : DefinitionSet.Bare) : String :=
  match format with
  | .debug => (program.outline true).toText .debug
  | .ron => (program.outline false).toText .record

end Formulary.CommandLine
