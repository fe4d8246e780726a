import PulseControl.Document.Access
import PulseControl.Document.Encode
import PulseControl.Document.Json.Reader
import PulseControl.Document.Yaml.Reader

/-!
# The domain read from documents

How each type of the library is read off a document, as the reverse of the way it is laid out.

* `PulseControl.Waveform.ofNode?`, `PulseControl.Instruction.ofNode?` and the like – one function for
  every type that is read;
* `PulseControl.DocumentFormat.read?` – the document of a text.
-/

namespace PulseControl

open Node

/-- The document of a text. -/
def DocumentFormat.read? (format : DocumentFormat) (s : String) : Option Node :=
  match format with
  | .json => Json.read? s
  | .yaml => Yaml.read? s

/-! ### Waveforms -/

/-- An edge shape. -/
def EdgeShape.ofNode? : DocumentFormat → Node → Option EdgeShape := oneOf? EdgeShape.ofName?

/-- A primitive. -/
def Primitive.ofNode? (format : DocumentFormat) (n : Node) : Option (Primitive Float) :=
  match n.alternative? format with
  | some (name, some content) =>
    if name = "Step" then do
      let f ← content.fields? format ["edge", "shape"]
      return .step (← f.required? "edge" float?) (← f.required? "shape" (EdgeShape.ofNode? format))
    else if name = "CosPulse" then do
      let f ← content.fields? format ["width"]
      return .cosPulse (← f.required? "width" float?)
    else if name = "Gaussian" then do
      let f ← content.fields? format ["width"]
      return .gaussian (← f.required? "width" float?)
    else if name = "Carrier" then do
      let f ← content.fields? format ["omega", "phase"]
      return .carrier (← f.required? "omega" float?) (← f.required? "phase" float?)
    else none
  | _ => none

/-- A waveform. -/
def Waveform.ofNode? (format : DocumentFormat) (n : Node) : Option (Waveform Float) :=
  match _h : n.alternative? format with
  | some (name, none) => if name = "Zero" then some .zero else none
  | some (name, some content) =>
    if name = "Zero" then if content.isAbsent then some .zero else none
    else if name = "Constant" then content.float?.map .const
    else if name = "Primitive" then do
      let f ← content.fields? format ["kind", "order"]
      return .prim (← f.required? "kind" (Primitive.ofNode? format))
        (← f.required? "order" (natural? maxOrder))
    else if name = "Shift" then
      match _hp : content.pair? with
      | some (w, dt) => do return .delayed (← Waveform.ofNode? format w) (← dt.float?)
      | none => none
    else if name = "Scale" then
      match _hp : content.pair? with
      | some (k, w) => do return .scaled (← k.float?) (← Waveform.ofNode? format w)
      | none => none
    else if name = "Sum" then
      match _hi : content.items? with
      | some items => do
        return .sum (← items.attach.mapM fun ⟨w, _⟩ => Waveform.ofNode? format w)
      | none => none
    else if name = "Product" then
      match _hp : content.pair? with
      | some (a, b) => do
        return .product (← Waveform.ofNode? format a) (← Waveform.ofNode? format b)
      | none => none
    else none
  | none => none
termination_by sizeOf n
decreasing_by
  · exact Nat.lt_trans (sizeOf_of_pair? _hp).1 (sizeOf_of_alternative? _h)
  · exact Nat.lt_trans (sizeOf_of_pair? _hp).2 (sizeOf_of_alternative? _h)
  · exact Nat.lt_trans (sizeOf_of_mem_items? _hi ‹_›) (sizeOf_of_alternative? _h)
  · exact Nat.lt_trans (sizeOf_of_pair? _hp).1 (sizeOf_of_alternative? _h)
  · exact Nat.lt_trans (sizeOf_of_pair? _hp).2 (sizeOf_of_alternative? _h)

/-- The options of a mixing. -/
def Mixing.ofNode? (format : DocumentFormat) (n : Node) : Option (Mixing Float) := do
  let f ← n.fields? format ["phase", "freq", "drag"]
  return {
    phase := ← f.required? "phase" float?
    frequency := ← f.required? "freq" float?
    drag := ← f.optional? "drag" float? }

/-! ### Gates and parameters -/

/-- An argument expression. -/
def ArgExpr.ofNode? (format : DocumentFormat) (n : Node) : Option (ArgExpr Float) :=
  match _h : n.alternative? format with
  | some (name, none) => if name = "Pi" then some .pi else none
  | some (name, some content) =>
    if name = "Pi" then if content.isAbsent then some .pi else none
    else if name = "Constant" then content.float?.map .const
    else if name = "Symbol" then content.string?.map .symbol
    else if name = "Neg" then (ArgExpr.ofNode? format content).map .neg
    else
      match _hp : content.pair? with
      | some (a, b) => do
        let a ← ArgExpr.ofNode? format a
        let b ← ArgExpr.ofNode? format b
        if name = "Add" then return .add a b
        else if name = "Sub" then return .sub a b
        else if name = "Mul" then return .mul a b
        else if name = "Div" then return .div a b
        else none
      | none => none
  | none => none
termination_by sizeOf n
decreasing_by
  · exact sizeOf_of_alternative? _h
  · exact Nat.lt_trans (sizeOf_of_pair? _hp).1 (sizeOf_of_alternative? _h)
  · exact Nat.lt_trans (sizeOf_of_pair? _hp).2 (sizeOf_of_alternative? _h)

/-- A parameter value, by what it looks like. A whole number of more than 63 bits is a float. -/
def ParamValue.ofNode? (n : Node) : Option (ParamValue Float) :=
  match n.settle with
  | some (.bool b) => some (.bool b)
  | some (.int i) =>
    if Int64.minValue.toInt ≤ i ∧ i ≤ Int64.maxValue.toInt then some (.int (Int64.ofInt i))
    else some (.float (Float.ofInt i))
  | some (.float x) => some (.float x)
  | some (.str s) => some (.str s)
  | some (.list rows) => (rows.mapM (listOf? float?)).map .table
  | _ => none

/-- Parameter values by name. -/
def ParamValues.ofNode? (n : Node) : Option (ParamValues Float) := do
  let entries ← n.entries?
  let values ← entries.mapM fun e => (ParamValue.ofNode? e.2).map fun value => (e.1, value)
  return values.foldl (fun m e => m.insert e.1 e.2) ∅

/-- The type of a parameter. -/
def ParamType.ofNode? : DocumentFormat → Node → Option ParamType := oneOf? ParamType.ofName?

/-- The declaration of a parameter. -/
def ParamSpec.ofNode? (format : DocumentFormat) (n : Node) : Option (ParamSpec Float) := do
  let f ← n.fields? format ["name", "ty", "default", "unit", "choices", "non_negative"]
  return {
    name := ← f.required? "name" string?
    type := ← f.required? "ty" (ParamType.ofNode? format)
    default? := ← f.optional? "default" ParamValue.ofNode?
    unit := ← f.optional? "unit" string?
    choices := ← f.optional? "choices" (listOf? string?)
    nonNegative := ← f.withDefault? "non_negative" false bool? }

/-- The declarations of a gate. -/
def ParamSchema.ofNode? (format : DocumentFormat) (n : Node) : Option (ParamSchema Float) :=
  listOf? (ParamSpec.ofNode? format) n

/-- The names of the fields of a key. -/
def GateKey.fieldNames : List String := ["gate", "type"]

/-- The key among the fields of a record. -/
def GateKey.ofFields? (f : Node.Fields) : Option GateKey := do
  return ⟨← f.required? "gate" string?, ← f.withDefault? "type" none (Node.optional? string?)⟩

/-- A gate key. -/
def GateKey.ofNode? (format : DocumentFormat) (n : Node) : Option GateKey :=
  (n.fields? format GateKey.fieldNames).bind GateKey.ofFields?

/-- A gate call; its key is not set apart. -/
def GateCall.ofNode? (n : Node) : Option (GateCall Float) := do
  let (f, key) ← n.spreadFields? ["qubits", "args"] GateKey.fieldNames
  return {
    key := ← GateKey.ofFields? key
    targets := ← f.required? "qubits" (listOf? string?)
    args := ← f.withDefault? "args" [] (listOf? float?) }

/-- How many targets a gate takes. -/
def Arity.ofNode? (format : DocumentFormat) (n : Node) : Option Arity :=
  match n.alternative? format with
  | some (name, some content) =>
    if name = "Exactly" then content.index?.map .exactly
    else if name = "AtLeast" then content.index?.map .atLeast
    else none
  | _ => none

/-- An argument of a gate. -/
def ArgSpec.ofNode? (format : DocumentFormat) (n : Node) : Option ArgSpec := do
  let f ← n.fields? format ["name", "required"]
  return ⟨← f.required? "name" string?, ← f.required? "required" bool?⟩

/-- The targets and arguments of a gate. -/
def Signature.ofNode? (format : DocumentFormat) (n : Node) : Option Signature := do
  let f ← n.fields? format ["arity", "args"]
  return ⟨← f.required? "arity" (Arity.ofNode? format),
    ← f.required? "args" (listOf? (ArgSpec.ofNode? format))⟩

/-- A step of a gate. -/
def Step.ofNode? (format : DocumentFormat) (n : Node) : Option (Step Float) := do
  let f ← n.fields? format ["key", "targets", "args"]
  return {
    key := ← f.required? "key" (GateKey.ofNode? format)
    targets := ← f.required? "targets" (listOf? index?)
    args := ← f.required? "args" (listOf? (ArgExpr.ofNode? format)) }

/-- An entry of a calibration; its key is not set apart. -/
def CalibrationEntry.ofNode? (n : Node) : Option (CalibrationEntry Float) := do
  let (f, key) ← n.spreadFields? ["qubits", "params"] GateKey.fieldNames
  return {
    slot := ⟨← GateKey.ofFields? key, ← f.required? "qubits" (listOf? string?)⟩
    params := ← f.withDefault? "params" ∅ ParamValues.ofNode? }

/-- The options of a lowering. -/
def LoweringOptions.ofNode? (format : DocumentFormat) (n : Node) : Option LoweringOptions := do
  let f ← n.fields? format ["max_depth", "emit_expansions"]
  return {
    maxDepth := ← f.withDefault? "max_depth" defaultMaxDepth index?
    emitExpansions := ← f.withDefault? "emit_expansions" true bool? }

/-! ### Instructions -/

/-- The port of a name. -/
def Port.ofDocumentName? (s : String) : Option Port :=
  [Port.drive, .flux, .readout, .couplerFlux].find? fun p => p.documentName = s

/-- A channel. -/
def Channel.ofNode? (format : DocumentFormat) (n : Node) : Option Channel := do
  let f ← n.fields? format ["port", "qubits"]
  return ⟨← f.required? "port" (oneOf? Port.ofDocumentName? format),
    ← f.required? "qubits" (listOf? string?)⟩

/-- The slot of a measurement. -/
def MeasurementTask.ofNode? (format : DocumentFormat) (n : Node) : Option (MeasurementTask Float) := do
  let f ← n.fields? format ["qubit", "cbit", "time", "signal", "weight", "params"]
  return {
    qubit := ← f.required? "qubit" string?
    cbit := UInt32.ofNat (← f.required? "cbit" (natural? (UInt32.size - 1)))
    time := ← f.required? "time" float?
    signal := ← f.required? "signal" string?
    weight := ← f.required? "weight" string?
    params := ← f.required? "params" ParamValues.ofNode? }

/-- An assignment to the state. -/
def StateUpdate.ofNode? (format : DocumentFormat) (n : Node) : Option (StateUpdate Float) :=
  match n.alternative? format with
  | some (name, some content) =>
    if name = "time" then do
      let f ← content.fields? format ["qubit", "value"]
      return .time (← f.required? "qubit" string?) (← f.required? "value" float?)
    else if name = "phase" then do
      let f ← content.fields? format ["qubit", "value"]
      return .phase (← f.required? "qubit" string?) (← f.required? "value" float?)
    else if name = "bias" then do
      let f ← content.fields? format ["channel", "value"]
      return .bias (← f.required? "channel" (Channel.ofNode? format)) (← f.required? "value" float?)
    else if name = "cbit" then (MeasurementTask.ofNode? format content).map .cbit
    else none
  | _ => none

/-- An instruction. -/
def Instruction.ofNode? (format : DocumentFormat) (n : Node) : Option (Instruction Float) :=
  match n.alternative? format with
  | some (name, some content) =>
    if name = "add_waveform" then do
      let f ← content.fields? format ["channel", "waveform"]
      return .addWaveform (← f.required? "channel" (Channel.ofNode? format))
        (← f.required? "waveform" (Waveform.ofNode? format))
    else if name = "set_state" then (StateUpdate.ofNode? format content).map .setState
    else if name = "expand" then (GateCall.ofNode? content).map .expand
    else none
  | _ => none

end PulseControl
