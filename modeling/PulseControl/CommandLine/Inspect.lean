import PulseControl.CommandLine.Script
import PulseControl.Document.Json.Writer
import PulseControl.Text.Lowercase

/-!
# Commands that show what there is

* `PulseControl.CommandLine.showGates` – the gates of the library;
* `PulseControl.CommandLine.showParams` – the parameters of a gate under a calibration.
-/

namespace PulseControl.CommandLine

/-! ### Gates -/

/-- Whether a text occurs in another one. -/
def occursIn (part : List Char) : List Char → Bool
  | [] => part.isEmpty
  | c :: cs => part.isPrefixOf (c :: cs) || occursIn part cs

/-- A line about a gate, unless there is nothing to tell. -/
def detail (title separator : String) (items : List String) : List String :=
  if items.isEmpty then [] else ["    " ++ title ++ ": " ++ separator.intercalate items]

/-- The lines about a gate. -/
def gateLines (key : GateKey) (d : GateDefinition Float) : List String :=
  let kind := if d.isCompound then "compound" else "primitive"
  ["  " ++ key.text ++ " " ++ kind, "    Targets: " ++ d.signature.arity.text] ++
    detail "Args" ", " d.signature.argNames ++
    detail "Params" ", " ((d.schema?.getD []).map ParamSpec.name) ++
    detail "Expands" " → " (d.subcalls.map fun s => s.key.text)

/-- **The gates of the library** whose names contain a text. -/
def showGates (filter? : Option String) : Script Unit := do
  let registry ← library
  printLine "qpulse Registered gates:\n"
  let shown := registry.keys.filter fun key =>
    filter?.all fun part => occursIn part.toList key.name.toList
  for key in shown do
    for line in gateLines key (← within [] (registry.get key)) do
      printLine line
  if shown.isEmpty then printLine "  No gates match"

/-! ### Parameters -/

/-- Whether two values are the same, numbers compared by value. -/
def isSameValue (a b : ParamValue Float) : Bool :=
  match a, b with
  | .bool a, .bool b => a == b
  | .int a, .int b => a == b
  | .float a, .float b => a == b
  | .str a, .str b => a == b
  | .table a, .table b => a == b
  | _, _ => false

/-- The line about a parameter. -/
def paramLine (schema : ParamSchema Float) (name : String) (value : ParamValue Float) : String :=
  let spec? := List.find? (fun s : ParamSpec Float => s.name = name) schema
  let unit := (spec?.bind ParamSpec.unit).getD ""
  let isDefault := (spec?.bind ParamSpec.default?).any (isSameValue · value)
  "  " ++ padRight 16 name ++ " " ++ value.text ++ " " ++ unit ++ "  " ++
    if isDefault then "default" else "calibrated"

/-- **The parameters of a gate** on some qubits, in a format. -/
def showParams (files : Files) (calibration? : Option String) (gate : String)
    (qualifier? : Option String) (qubits : List String) (format : String) : Script Unit := do
  let registry ← library
  let calibration ← loadCalibration files calibration?
  let lowerer : Lowerer Float := ⟨registry, calibration.overrides, {}⟩
  let key : GateKey := ⟨gate, qualifier?⟩
  let params ← within [] (lowerer.resolve ⟨key, qubits⟩)
  let format := lowercase format
  if format = "json" then printLine (Json.writeIndented (ParamValues.toDatum params.values))
  else if format = "yaml" then print (← yamlText (ParamValues.toDatum params.values))
  else if format = "table" then
    let definition ← within [] (registry.get key)
    printLine ("→ " ++ key.text ++ " on " ++ ", ".intercalate qubits ++ "\n")
    if params.values.isEmpty then printLine "  (no parameters)"
    for (name, value) in params.values.toList do
      printLine (paramLine (definition.schema?.getD []) name value)
  else throw ["Unknown format: '" ++ format ++ "'. Available: table, yaml, json"]

end PulseControl.CommandLine
