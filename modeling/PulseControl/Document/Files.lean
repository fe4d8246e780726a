import PulseControl.Document.Decode
import PulseControl.Document.Yaml.Writer

/-!
# Calibration files and program files

A calibration file is a YAML document with a list of entries. A program file is a list of gate calls, in
JSON or in YAML, alone or as the calls of a record.

* `PulseControl.Calibration.read?`, `PulseControl.Calibration.write?` – calibration files;
* `PulseControl.readProgram?` – program files.
-/

namespace PulseControl

open Node

/-! ### Calibrations -/

namespace Calibration

/-- The document of a calibration. -/
def toDatum (c : Calibration Float) : Datum :=
  .record [("gates", .list (c.toEntries.map CalibrationEntry.toDatum))]

/-- The calibration of a document. -/
def ofNode? (n : Node) : Option (Calibration Float) := do
  let f ← n.fields? .yaml ["gates"]
  return .ofEntries (← f.withDefault? "gates" [] (listOf? CalibrationEntry.ofNode?))

/-- **The calibration of a file.** -/
def read? (s : String) : Option (Calibration Float) := (DocumentFormat.yaml.read? s).bind ofNode?

/-- **The file of a calibration.** -/
def write? (c : Calibration Float) : Option String := Yaml.write? c.toDatum

end Calibration

/-! ### Programs -/

/-- The calls of a document whose scalars are typed by their looks. -/
def programOfNode? (n : Node) : Option (List (GateCall Float)) :=
  let calls? := listOf? GateCall.ofNode?
  match n with
  | .record _ => (n.fields? .yaml ["calls"]).bind fun f => f.required? "calls" calls?
  | n => calls? n

/-- **The calls of a program file.** -/
def readProgram? (format : DocumentFormat) (source : String) : Option (List (GateCall Float)) :=
  ((format.read? source).bind Node.settle).bind programOfNode?

/-- The format of files with an extension, in letters of either case. -/
def DocumentFormat.ofExtension (extension : String) : DocumentFormat :=
  if extension.toLower = "json" then .json else .yaml

end PulseControl
