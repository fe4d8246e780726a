import PulseControl.Decimal.Style
import PulseControl.Error

/-!
# Texts of the command line

* `PulseControl.CommandLine.timeText` – a time in a unit of its size;
* `PulseControl.CommandLine.fileExtension` – the extension of a file;
* `PulseControl.GateError.causes` – an error and the error behind it.
-/

namespace PulseControl.CommandLine

/-- A time in seconds, with the unit that fits its size. -/
def timeText (seconds : Float) : String :=
  let size := seconds.abs
  if size == 0 then "0 s"
  else if size < 1e-6 then Decimal.fixed 1 (seconds * 1e9) ++ " ns"
  else if size < 1e-3 then Decimal.fixed 3 (seconds * 1e6) ++ " µs"
  else Decimal.fixed 3 (seconds * 1e3) ++ " ms"

/-- A text with blanks in front, up to a width. -/
def padLeft (width : Nat) (s : String) : String :=
  String.ofList (List.replicate (width - s.length) ' ') ++ s

/-- A text with blanks behind it, up to a width. -/
def padRight (width : Nat) (s : String) : String :=
  s ++ String.ofList (List.replicate (width - s.length) ' ')

/-- The steps of a path that go somewhere. -/
def pathSteps (path : String) : List String :=
  (path.splitOn "/").filter fun step => step ≠ "" && step ≠ "."

/-- The extension of a file name: what stands behind its last point, unless nothing stands in front of
that. -/
def extensionOf (name : String) : String :=
  let reversed := name.toList.reverse
  match reversed.dropWhile (· ≠ '.') with
  | '.' :: _ :: _ => String.ofList (reversed.takeWhile (· ≠ '.')).reverse
  | _ => ""

/-- The extension of the file at a path, or nothing. -/
def fileExtension (path : String) : String :=
  match (pathSteps path).getLast? with
  | none => ""
  | some name => if name = ".." then "" else extensionOf name

end PulseControl.CommandLine

namespace PulseControl

/-- The wording of an error, and behind it that of the error that caused it. -/
def GateError.causes (e : GateError Float) : List String :=
  match e with
  | .wave fault => [e.message, fault.message]
  | e => [e.message]

end PulseControl
