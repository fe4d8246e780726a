import PulseControl.CommandLine.Inspect
import PulseControl.CommandLine.Report

/-!
# Running the program

The program is a function of its arguments, of one variable of its environment and of the files that it
reads. It ends with a code and has printed two texts, one of them about its failure.

* `PulseControl.CommandLine.Outcome` – what comes of a run;
* `PulseControl.CommandLine.Run.of` – a run up to the file that it writes;
* `PulseControl.CommandLine.Run.finish` – the run after that.
-/

namespace PulseControl.CommandLine

/-- The variable of the environment that names a calibration file. -/
def calibrationVariable : String := "QPULSE_CALIBRATION"

/-- What comes of a run. -/
structure Outcome where
  code : UInt32
  /-- What was printed. -/
  output : String
  /-- What was printed about a failure. -/
  failure? : Option String
  deriving DecidableEq, Repr

/-- The text about a failure for some causes. -/
def failureText (causes : List String) : String := "Error: " ++ ": ".intercalate causes

/-- A run that has failed. -/
def Outcome.failed (output : String) (causes : List String) : Outcome :=
  ⟨1, output, failureText causes⟩

/-- A run up to the file that it writes. -/
inductive Run where
  /-- There is no file to be written. -/
  | done (outcome : Outcome)
  /-- A file is to be written. -/
  | saving (output : String) (save : Save)

/-- The part of a command that comes before the file that it writes. -/
def script (files : Files) (i : Invocation) : Script (Option Save) :=
  match i.command with
  | .gates filter? => do
    showGates filter?
    return none
  | .params gate qualifier? qubits format => do
    showParams files i.calibration? gate qualifier? qubits format
    return none
  | .lower input request => lowerProgram files i.calibration? input request

/-- What the program says about itself. -/
def usage : String := "Usage: qpulse [OPTIONS] <COMMAND>\n"

/-- The version of the program. -/
def version : String := "qpulse 0.3.0\n"

namespace Run

/-- The run of some arguments, up to the file that it writes. -/
def of (files : Files) (environment? : Option String) (args : List String) : Run :=
  match parse environment? args with
  | .error .help => .done ⟨0, usage, none⟩
  | .error .version => .done ⟨0, version, none⟩
  | .error .misuse => .done ⟨2, "", some usage⟩
  | .ok invocation =>
    match (script files invocation).run "" with
    | (.ok none, output) => .done ⟨0, output, none⟩
    | (.ok (some save), output) => .saving output save
    | (.error causes, output) => .done (.failed output causes)

/-- The outcome of a run, once its file is written or cannot be written for a cause. -/
def finish (r : Run) (write : Save → Option String) : Outcome :=
  match r with
  | .done outcome => outcome
  | .saving output save =>
    match write save with
    | none => ⟨0, output ++ "  Output: " ++ save.path ++ "\n", none⟩
    | some cause => .failed output ["Failed to write file: " ++ save.path, cause]

end Run

end PulseControl.CommandLine
