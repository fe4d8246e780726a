import PulseControl.CommandLine.Run

/-!
# The program

The program reads the files that its arguments name, runs, writes the file that it is to write and prints
what it has to say.
-/

namespace PulseControl.CommandLine

/-- The files that a command reads. -/
def inputPaths (i : Invocation) : List String :=
  let program :=
    match i.command with
    | .lower input _ => [input]
    | _ => []
  program ++ i.calibration?.toList

/-- The cause of a failure. -/
def faultCause (e : IO.Error) : String :=
  match e with
  | .noFileOrDirectory .. => "No such file or directory (os error 2)"
  | .inappropriateType .. => "Is a directory (os error 21)"
  | .permissionDenied .. => "Permission denied (os error 13)"
  | e => toString e

/-- What is found at a path. -/
def viewPath (path : String) : IO FileView := do
  try
    let bytes ← IO.FS.readBinFile path
    return match String.fromUTF8? bytes with
      | some content => .text content
      | none => .unreadable "stream did not contain valid UTF-8"
  catch e =>
    return match e with
      | .noFileOrDirectory .. => .missing (faultCause e)
      | e => .unreadable (faultCause e)

/-- The file written, or the cause for which it is not. -/
def writeSave (s : Save) : IO (Option String) := do
  try
    IO.FS.writeFile s.path s.content
    return none
  catch e => return some (faultCause e)

end PulseControl.CommandLine

open PulseControl.CommandLine in
/-- The program. -/
def main (args : List String) : IO UInt32 := do
  let environment? ← IO.getEnv calibrationVariable
  let paths :=
    match parse environment? args with
    | .ok invocation => inputPaths invocation
    | .error _ => []
  let views ← paths.mapM fun path => return (path, ← viewPath path)
  let files : Files := fun path =>
    (views.lookup path).getD (.missing "No such file or directory (os error 2)")
  let run := Run.of files environment? args
  let fault? ←
    match run with
    | .saving _ save => writeSave save
    | .done _ => pure none
  let outcome := run.finish fun _ => fault?
  IO.print outcome.output
  if let some failure := outcome.failure? then
    IO.eprintln failure
  return outcome.code
