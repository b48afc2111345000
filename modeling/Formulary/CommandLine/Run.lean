/-
# Runs

A run takes all files through one pass before the next pass begins.  A pass keeps what the files
become in a row and reports the files that fail; it ends the run if anything has been reported by
then, and nothing is shown.  Otherwise what the files have come to is shown, one after the other.

A run only sees the files and the standard input through `Inputs`, so it is a function of them
and of the arguments.
-/
import Formulary.CommandLine.Arguments
import Formulary.Text.LineBreak

namespace Formulary.CommandLine

open Text Parsing

/-! ## Inputs -/

/-- Why a file cannot be read. -/
inductive ReadError where
  /-- There is no such file. -/
  | notFound
  /-- It is a directory. -/
  | isDirectory
  /-- It is not a text in UTF-8. -/
  | notText
  /-- For a reason that the system gives. -/
  | other (reason : String)
deriving DecidableEq, Repr

/-- What is reported. -/
def ReadError.message : ReadError → String
  | notFound => "No such file or directory (os error 2)"
  | isDirectory => "Is a directory (os error 21)"
  | notText => "stream did not contain valid UTF-8"
  | other reason => reason

/-- What a run can read. -/
structure Inputs where
  /-- The content of the file under a path. -/
  file : String → Except ReadError ByteArray
  /-- All that comes from the standard input. -/
  standardInput : ByteArray

/-- The text that bytes stand for, with unified line breaks. -/
def decode (bytes : ByteArray) : Except ReadError (List Char) :=
  match String.fromUTF8? bytes with
  | some text => .ok (unifyLineBreaks text.toList)
  | none => .error .notText

/-- The parts of a path.  Empty parts and single points after the first do not count. -/
def pathParts (path : String) : List (List Char) :=
  match path.toList.splitOn '/' with
  | [] => []
  | first :: rest => first :: rest.filter fun part => part ≠ [] && part ≠ ['.']

/-- Whether a path stands for the standard input. -/
def isStandardInput (path : String) : Bool := pathParts path == [['-']]

/-- How the standard input is named in messages. -/
def standardInputName : String := "<stdin>"

/-- Where a source comes from. -/
inductive Origin where
  /-- The standard input, under a path or because no file is named. -/
  | standardInput (path : Option String)
  /-- A file. -/
  | file (path : String)
deriving DecidableEq, Repr

namespace Origin

/-- What a path stands for. -/
def ofPath (path : String) : Origin :=
  if isStandardInput path then .standardInput path else .file path

/-- How it is named if it cannot be read. -/
def label : Origin → String
  | standardInput path => path.getD standardInputName
  | file path => path

/-- How it is named in messages about its text. -/
def name : Origin → String
  | standardInput _ => standardInputName
  | file path => path

end Origin

/-- A source of a program. -/
structure Source where
  /-- Where it comes from. -/
  origin : Origin
  /-- Its text, or why there is none. -/
  text : Except ReadError (List Char)

/-- The sources from the given origins.  The standard input can be read once; it is empty from
then on. -/
def sources (inputs : Inputs) (standardInput : ByteArray) : List Origin → List Source
  | [] => []
  | .standardInput path :: rest =>
    ⟨.standardInput path, decode standardInput⟩ :: sources inputs .empty rest
  | .file path :: rest =>
    ⟨.file path, inputs.file path >>= decode⟩ :: sources inputs standardInput rest

/-! ## Passes -/

/-- What is reported of a file. -/
inductive Diagnostic where
  /-- It cannot be read. -/
  | unreadable (file : String) (error : ReadError)
  /-- It is not a program. -/
  | malformed (file : String) (failure : Failure)

/-- The lines of a diagnostic. -/
def Diagnostic.display : Diagnostic → String
  | unreadable file error =>
    s!"FATAL could not read `{file}`\n  caused by: {error.message}\n"
  | malformed file failure => s!"ERROR {file}:{failure.span.display}: {failure.message}\n"

/-- What a run has given out so far. -/
structure Context where
  /-- The number of diagnostics. -/
  errors : Nat := 0
  /-- The diagnostics, which go to the standard error. -/
  reported : List Diagnostic := []
  /-- What has gone to the standard output. -/
  shown : String := ""

namespace Context

/-- Whether there are diagnostics. -/
def hasErrors (c : Context) : Bool := 0 < c.errors

/-- One more diagnostic. -/
def emit (c : Context) (d : Diagnostic) : Context :=
  { c with errors := c.errors + 1, reported := c.reported ++ [d] }

/-- More on the standard output. -/
def write (c : Context) (text : String) : Context := { c with shown := c.shown ++ text }

end Context

/-- A pass of a run, which may end the run. -/
abbrev Pass (α : Type) : Type := EStateM Unit Context α

/-- Takes items through a step, one after the other.  What they become is kept, and what prevents
it is reported. -/
def takeThrough {α β : Type} (step : α → Except Diagnostic β) : List α → Pass (List β)
  | [] => return []
  | a :: as =>
    match step a with
    | .ok b => return b :: (← takeThrough step as)
    | .error d => do
      modify (·.emit d)
      takeThrough step as

/-- A pass over items.  It ends the run if there are diagnostics by then. -/
def pass {α β : Type} (step : α → Except Diagnostic β) (items : List α) : Pass (List β) := do
  let results ← takeThrough step items
  if (← get).hasErrors then throw () else return results

/-- Shows texts. -/
def showAll (texts : List String) : Pass Unit := modify (·.write (String.join texts))

/-- A file whose text is there. -/
structure SourceFile where
  /-- How it is named in messages. -/
  name : String
  /-- What it says. -/
  text : List Char

/-- The file that a source is. -/
def readSource (s : Source) : Except Diagnostic SourceFile :=
  match s.text with
  | .ok text => .ok ⟨s.origin.name, text⟩
  | .error e => .error (.unreadable s.origin.label e)

/-- The tokens of a file. -/
def readTokens (file : SourceFile) : Except Diagnostic (List (Located Token)) :=
  (Token.ofText file.text).mapError (.malformed file.name)

/-- The program of a file and its tokens. -/
def readProgram (file : SourceFile × List (Located Token)) :
    Except Diagnostic DefinitionSet.Placed :=
  (DefinitionSet.ofTokens file.2).mapError (.malformed file.1.name)

/-- Shows the tokens of the files and ends the run, if they are asked for. -/
def showTokensIfAsked (output : Output) (tokens : List (List (Located Token))) : Pass Unit :=
  match output with
  | .tokens format => do
    showAll (tokens.map (showTokens format))
    throw ()
  | _ => return ()

/-- Shows the trees of the programs and ends the run, if they are asked for. -/
def showTreesIfAsked (output : Output) (programs : List DefinitionSet.Placed) : Pass Unit :=
  match output with
  | .tree format => do
    showAll (programs.map fun program => showTree format program.snapshot)
    throw ()
  | _ => return ()

/-- All passes of a run over some sources.  Files and their tokens belong together by their
places in the two rows. -/
def passes (output : Output) (sources : List Source) : Pass Unit := do
  let files ← pass readSource sources
  let tokens ← pass readTokens files
  showTokensIfAsked output tokens
  let programs ← pass readProgram (files.zip tokens)
  showTreesIfAsked output programs
  showAll (programs.map Layout.program)

/-! ## Runs as a whole -/

/-- What a run leaves behind. -/
structure Report where
  /-- The exit code. -/
  code : UInt32
  /-- What goes to the standard output. -/
  output : String
  /-- What goes to the standard error. -/
  error : String
deriving DecidableEq, Repr

/-- What a run reads: the standard input, if no file is named. -/
def origins (options : Options) : List Origin :=
  if options.files.isEmpty then [.standardInput none] else options.files.map Origin.ofPath

/-- What a run leaves behind that ends with an exit code. -/
def Context.report (c : Context) (code : UInt32) : Report :=
  ⟨code, c.shown, String.join (c.reported.map Diagnostic.display)⟩

/-- What a run leaves behind at its end. -/
def reportOf : EStateM.Result Unit Context Unit → Report
  | .ok _ c => c.report 0
  | .error _ c => c.report (if c.hasErrors then 1 else 0)

/-- A run with the given options. -/
def runOptions (options : Options) (inputs : Inputs) : Report :=
  reportOf (passes options.output (sources inputs inputs.standardInput (origins options)) {})

/-- The answer to a question. -/
def answer : Question → String
  | .version => "asct 0.1.0\n"
  | .help =>
    "Usage: asct [OPTIONS] [FILE]...\n\n" ++
    "Arguments:\n" ++
    "  [FILE]...  input files (`-` or none to read stdin)\n\n" ++
    "Options:\n" ++
    "  -s, --stage <STAGE>    the stage to stop after " ++
    "[possible values: lexer, parser, writer]\n" ++
    "  -f, --format <FORMAT>  the output format [possible values: pretty, debug, ron]\n" ++
    "  -h, --help             Print help\n" ++
    "  -V, --version          Print version\n"

/-- A run with the given arguments. -/
def run (args : List String) (inputs : Inputs) : Report :=
  match Options.ofArguments args with
  | .ok options => runOptions options inputs
  | .error (.question question) => ⟨0, answer question, ""⟩
  | .error (.misuse error) => ⟨2, "", s!"error: {error.message}\n"⟩

end Formulary.CommandLine
