import PulseControl.CommandLine.Text
import PulseControl.Document.Files
import PulseControl.StandardGates.Library

/-!
# Commands as scripts

A command prints lines and can fail; what it has printed before stays. It sees files as they were before
it ran, and a file that it writes is the last thing it does.

* `PulseControl.CommandLine.Script` – what a command does;
* `PulseControl.CommandLine.Files` – the files that it sees;
* `PulseControl.CommandLine.loadProgram`, `PulseControl.CommandLine.loadCalibration` – the files that
  commands read.
-/

namespace PulseControl.CommandLine

/-! ### Scripts -/

/-- What a command does: it prints a text, and it fails for causes, the outermost first, or succeeds. -/
abbrev Script := ExceptT (List String) (StateM String)

/-- Prints a text. -/
def print (s : String) : Script Unit := modifyGet fun printed => ((), printed ++ s)

/-- Prints a line. -/
def printLine (s : String) : Script Unit := print (s ++ "\n")

/-- A result of the library, its error put behind some context. -/
def within {τ : Type} (context : List String) : Except (GateError Float) τ → Script τ
  | .ok x => pure x
  | .error e => throw (context ++ e.causes)

/-! ### Files -/

/-- What is found where a file is read. -/
inductive FileView where
  /-- There is nothing, for a cause. -/
  | missing (cause : String)
  /-- There is something that cannot be read, for a cause. -/
  | unreadable (cause : String)
  | text (content : String)

/-- The files that a command sees. -/
abbrev Files := String → FileView

/-- The program of a file. -/
def loadProgram (files : Files) (path : String) : Script (List (GateCall Float)) :=
  match files path with
  | .missing _ => throw ["File not found: " ++ path]
  | .unreadable cause => throw ["Failed to read file: " ++ path, cause]
  | .text source =>
    match readProgram? (.ofExtension (fileExtension path)) source with
    | some calls => pure calls
    | none => throw ["Failed to parse program: " ++ path]

/-- The calibration of a file, or an empty one where no file is named. -/
def loadCalibration (files : Files) : Option String → Script (Calibration Float)
  | none => pure ∅
  | some path =>
    let context := "Failed to load calibration: " ++ path
    match files path with
    | .missing cause | .unreadable cause =>
      throw [context, "Failed to read calibration: " ++ cause, cause]
    | .text source =>
      match Calibration.read? source with
      | some c => pure c
      | none => throw [context, "Failed to parse calibration"]

/-- The library of gates. -/
def library : Script (Registry Float) :=
  within ["Failed to build the standard gate library"] StandardGates.registry

/-- The text of a value in YAML. -/
def yamlText (d : Datum) : Script String :=
  match Yaml.write? d with
  | some s => pure s
  | none => throw ["serializing nested enums in YAML is not supported yet"]

end PulseControl.CommandLine
