/-
# The program

Reads the files that the arguments name, runs, and leaves the report behind.
-/
import Formulary.CommandLine.Run

open Formulary CommandLine

/-- The reason for which the system refuses to read a file. -/
def readError : IO.Error → ReadError
  | .noFileOrDirectory .. => .notFound
  | .inappropriateType .. => .isDirectory
  | e => .other (toString e)

/-- Reads a file. -/
def readFile (path : String) : IO (Except ReadError ByteArray) := do
  try return .ok (← IO.FS.readBinFile path) catch e => return .error (readError e)

/-- Reads all that is still to come from a stream, after what was read already. -/
partial def readRest (stream : IO.FS.Stream) (bytes : ByteArray) : IO ByteArray := do
  let more ← stream.read 65536
  if more.isEmpty then return bytes else readRest stream (bytes ++ more)

/-- Runs with the given arguments. -/
def main (args : List String) : IO UInt32 := do
  let places := match Options.ofArguments args with
    | .ok options => origins options
    | .error _ => []
  let mut files : List (String × Except ReadError ByteArray) := []
  let mut standardInput := ByteArray.empty
  for place in places.eraseDups do
    match place with
    | .standardInput _ => standardInput ← readRest (← IO.getStdin) standardInput
    | .file path => files := (path, ← readFile path) :: files
  let file (path : String) := (files.lookup path).getD (.error .notFound)
  let report := run args ⟨file, standardInput⟩
  (← IO.getStdout).putStr report.output
  (← IO.getStderr).putStr report.error
  return report.code
