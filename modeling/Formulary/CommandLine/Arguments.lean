/-
# Arguments

The arguments of a run name files and settings.  A setting has a long and a short name and takes
a value, which is the next argument or is attached to the name.  After two minus signs on their
own everything is a file.

What an argument says takes effect late: the value of a setting, and a row of files, are checked
only when the next setting or the end is reached.  An argument that is not known at all is
reported at once, before what is still to be checked.
-/
import Formulary.CommandLine.Options

namespace Formulary.CommandLine

/-- What can be set. -/
inductive Setting where
  | stage
  | format
deriving DecidableEq, Repr

/-- A setting as it is named in messages. -/
def Setting.usage : Setting → String
  | stage => "--stage <STAGE>"
  | format => "--format <FORMAT>"

/-- The setting with a long name. -/
def Setting.ofLong? (name : String) : Option Setting :=
  [("stage", stage), ("format", format)].lookup name

/-- The setting with a short name. -/
def Setting.ofShort? (name : Char) : Option Setting :=
  [('s', stage), ('f', format)].lookup name

/-- A question that is answered instead of a run. -/
inductive Question where
  | help
  | version
deriving DecidableEq, Repr

/-- The question with a long name. -/
def Question.ofLong? (name : String) : Option Question :=
  [("help", help), ("version", version)].lookup name

/-- The question with a short name. -/
def Question.ofShort? (name : Char) : Option Question :=
  [('h', help), ('V', version)].lookup name

/-- A question as it is named in messages. -/
def Question.usage : Question → String
  | help => "--help"
  | version => "--version"

/-- The files as they are named in messages. -/
def filesUsage : String := "[FILE]..."

/-- Why arguments are not understood. -/
inductive UsageError where
  /-- A setting has no such value. -/
  | invalidValue (value : String) (setting : Setting)
  /-- Something needs a value. -/
  | missingValue (what : String)
  /-- There is no such argument. -/
  | unexpectedArgument (argument : String)
  /-- A question was given a value. -/
  | unexpectedValue (value : String) (question : Question)
  /-- A setting was given twice. -/
  | repeated (setting : Setting)
  /-- The format does not suit the stage. -/
  | mismatch (reason : Mismatch)
deriving DecidableEq, Repr

/-- A text in apostrophes. -/
def quoted (text : String) : String := "'" ++ text ++ "'"

/-- What is reported. -/
def UsageError.message : UsageError → String
  | invalidValue value setting =>
    "invalid value " ++ quoted value ++ " for " ++ quoted setting.usage
  | missingValue what =>
    "a value is required for " ++ quoted what ++ " but none was supplied"
  | unexpectedArgument argument => "unexpected argument " ++ quoted argument ++ " found"
  | unexpectedValue value question =>
    "unexpected value " ++ quoted value ++ " for " ++ quoted question.usage ++
      " found; no more were expected"
  | repeated setting =>
    "the argument " ++ quoted setting.usage ++ " cannot be used multiple times"
  | mismatch reason => reason.message

/-- How reading arguments ends early. -/
inductive Ending where
  /-- They are not understood. -/
  | misuse (error : UsageError)
  /-- They ask a question. -/
  | question (question : Question)
deriving DecidableEq, Repr

/-- What was said last and is still to be checked. -/
inductive Pending where
  /-- Nothing. -/
  | nothing
  /-- A row of files. -/
  | files (names : List String)
  /-- A setting whose value comes next. -/
  | awaited (setting : Setting)
  /-- A setting with its value. -/
  | given (setting : Setting) (value : String)
deriving DecidableEq, Repr

/-- What the arguments said so far. -/
structure Progress where
  /-- The files. -/
  files : List String
  /-- The stage, if it is set. -/
  stage : Option Stage
  /-- The format, if it is set. -/
  format : Option Format
  /-- What is still to be checked. -/
  pending : Pending
deriving DecidableEq, Repr

namespace Progress

/-- Nothing was said. -/
def start : Progress := ⟨[], none, none, .nothing⟩

/-- Gives a setting its value, which must be one of its values. -/
def assign (p : Progress) (setting : Setting) (value : String) : Except UsageError Progress :=
  let unknown : UsageError :=
    if value = "" then .missingValue setting.usage else .invalidValue value setting
  match setting with
  | .stage =>
    if p.stage.isSome then .error (.repeated setting)
    else
      match Stage.ofName? value with
      | some stage => .ok { p with stage := some stage }
      | none => .error unknown
  | .format =>
    if p.format.isSome then .error (.repeated setting)
    else
      match Format.ofName? value with
      | some format => .ok { p with format := some format }
      | none => .error unknown

/-- Checks what is still to be checked. -/
def settle (p : Progress) : Except UsageError Progress :=
  let q := { p with pending := .nothing }
  match p.pending with
  | .nothing => .ok q
  | .files names =>
    if names.contains "" then .error (.missingValue filesUsage)
    else .ok { q with files := q.files ++ names }
  | .awaited setting => .error (.missingValue setting.usage)
  | .given setting value => q.assign setting value

/-- Checks what is still to be checked, or ends with a misuse. -/
def settled (p : Progress) : Except Ending Progress := p.settle.mapError .misuse

/-- Takes a setting with the value attached to its name, if there is one. -/
def set (p : Progress) (setting : Setting) (value : Option String) : Except Ending Progress := do
  let p ← p.settled
  match value with
  | some value => (p.assign setting value).mapError .misuse
  | none => return { p with pending := .awaited setting }

/-- Takes a question. -/
def ask (p : Progress) (question : Question) : Except Ending Progress := do
  let _ ← p.settled
  throw (.question question)

/-- Takes a long name and the value attached to it, if there is one. -/
def long (p : Progress) (name : String) (value : Option String) : Except Ending Progress :=
  match Setting.ofLong? name, Question.ofLong? name, value with
  | some setting, _, value => p.set setting value
  | none, some question, none => p.ask question
  | none, some question, some value => .error (.misuse (.unexpectedValue value question))
  | none, none, _ => .error (.misuse (.unexpectedArgument ("--" ++ name)))

/-- What is attached to a short name: the rest of the argument, without an equals sign. -/
def attached : List Char → Option String
  | [] => none
  | '=' :: cs => some (String.ofList cs)
  | cs => some (String.ofList cs)

/-- Takes a row of short names.  Everything behind the name of a setting is its value. -/
def short (p : Progress) : List Char → Except Ending Progress
  | [] => .ok p
  | c :: cs =>
    match Setting.ofShort? c, Question.ofShort? c with
    | some setting, _ => p.set setting (attached cs)
    | none, some question => p.ask question
    | none, none => .error (.misuse (.unexpectedArgument (String.ofList ['-', c])))

/-- Takes a file. -/
def file (p : Progress) (name : String) : Except Ending Progress := do
  match p.pending with
  | .files names => return { p with pending := .files (names ++ [name]) }
  | _ =>
    let p ← p.settled
    return { p with pending := .files [name] }

/-- Takes an argument that is not two minus signs on their own. -/
def argument (p : Progress) (a : String) : Except Ending Progress :=
  match a.toList with
  | '-' :: '-' :: cs =>
    let value := (cs.dropWhile (· != '=')).tail?.map String.ofList
    p.long (String.ofList (cs.takeWhile (· != '='))) value
  | '-' :: c :: cs => p.short (c :: cs)
  | _ =>
    match p.pending with
    | .awaited setting => .ok { p with pending := .given setting a }
    | _ => p.file a

/-- Takes all arguments. -/
def arguments (p : Progress) : List String → Except Ending Progress
  | [] => p.settled
  | a :: as => do
    if a = "--" then (← as.foldlM file p).settled
    else arguments (← p.argument a) as

end Progress

/-- What a run is asked to do. -/
structure Options where
  /-- The files to be read; if there are none, the standard input is. -/
  files : List String
  /-- What is shown. -/
  output : Output
deriving DecidableEq, Repr

/-- The options that arguments stand for.  Without a stage, programs are written. -/
def Options.ofArguments (args : List String) : Except Ending Options := do
  let p ← Progress.start.arguments args
  let output ← (Output.of (p.stage.getD .writer) p.format).mapError (.misuse ∘ .mismatch)
  return ⟨p.files, output⟩

end Formulary.CommandLine
