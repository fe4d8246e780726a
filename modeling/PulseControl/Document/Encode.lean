import PulseControl.Calibration.Store
import PulseControl.Document.Datum
import PulseControl.Gate.Signature
import PulseControl.Instruction
import PulseControl.Lowering.Plan
import PulseControl.Param.Schema
import PulseControl.Waveform.Mixing

/-!
# Documents of the domain

How each type of the library is laid out in a document: the names of its fields and alternatives and
their order. A part that says nothing (no qualifier, no arguments) is left out of calls and keys.

* `PulseControl.Waveform.toDatum`, `PulseControl.Instruction.toDatum` and the like – one function for
  every type that is written.
-/

namespace PulseControl

/-! ### Waveforms -/

/-- An edge shape is written by its name. -/
def EdgeShape.toDatum (s : EdgeShape) : Datum := .str s.name

/-- A primitive is an alternative with its parameters as fields. -/
def Primitive.toDatum : Primitive Float → Datum
  | .step edge shape => .variant "Step" (.record [("edge", .float edge), ("shape", shape.toDatum)])
  | .cosPulse width => .variant "CosPulse" (.record [("width", .float width)])
  | .gaussian width => .variant "Gaussian" (.record [("width", .float width)])
  | .carrier omega phase =>
    .variant "Carrier" (.record [("omega", .float omega), ("phase", .float phase)])

mutual

/-- A waveform is written as the expression that it is. -/
def Waveform.toDatum : Waveform Float → Datum
  | .zero => .str "Zero"
  | .const c => .variant "Constant" (.float c)
  | .prim p n => .variant "Primitive" (.record [("kind", p.toDatum), ("order", .int n)])
  | .delayed w dt => .variant "Shift" (.list [w.toDatum, .float dt])
  | .scaled k w => .variant "Scale" (.list [.float k, w.toDatum])
  | .sum ws => .variant "Sum" (.list (Waveform.toData ws))
  | .product a b => .variant "Product" (.list [a.toDatum, b.toDatum])

/-- The terms of a sum. -/
def Waveform.toData : List (Waveform Float) → List Datum
  | [] => []
  | w :: ws => w.toDatum :: Waveform.toData ws

end

/-- The options of a mixing. -/
def Mixing.toDatum (m : Mixing Float) : Datum :=
  .record [("phase", .float m.phase), ("freq", .float m.frequency),
    ("drag", .option .float m.drag)]

/-! ### Gates and parameters -/

/-- An argument expression is written as the expression that it is. -/
def ArgExpr.toDatum : ArgExpr Float → Datum
  | .const v => .variant "Constant" (.float v)
  | .symbol name => .variant "Symbol" (.str name)
  | .pi => .str "Pi"
  | .neg e => .variant "Neg" e.toDatum
  | .add a b => .variant "Add" (.list [a.toDatum, b.toDatum])
  | .sub a b => .variant "Sub" (.list [a.toDatum, b.toDatum])
  | .mul a b => .variant "Mul" (.list [a.toDatum, b.toDatum])
  | .div a b => .variant "Div" (.list [a.toDatum, b.toDatum])

/-- A parameter value is written as what it is, without its type. -/
def ParamValue.toDatum : ParamValue Float → Datum
  | .bool b => .bool b
  | .int i => .int i.toInt
  | .float x => .float x
  | .str s => .str s
  | .table rows => .list (rows.map .floats)

/-- Parameter values by name, sorted. -/
def ParamValues.toDatum (values : ParamValues Float) : Datum :=
  .record (values.toList.map fun entry => (entry.1, entry.2.toDatum))

/-- The declaration of a parameter. -/
def ParamSpec.toDatum (s : ParamSpec Float) : Datum :=
  .record [("name", .str s.name), ("ty", .str s.type.name),
    ("default", .option ParamValue.toDatum s.default?), ("unit", .option .str s.unit),
    ("choices", .option .strings s.choices), ("non_negative", .bool s.nonNegative)]

/-- The declarations of a gate. -/
def ParamSchema.toDatum (schema : ParamSchema Float) : Datum :=
  .list (schema.map ParamSpec.toDatum)

/-- The fields of a key. -/
def GateKey.fields (k : GateKey) : List (String × Datum) :=
  ("gate", .str k.name) :: (k.qualifier.toList.map fun q => ("type", .str q))

/-- A gate key. -/
def GateKey.toDatum (k : GateKey) : Datum := .record k.fields

/-- A gate call; its key is not set apart. -/
def GateCall.toDatum (c : GateCall Float) : Datum :=
  .record (c.key.fields ++ [("qubits", .strings c.targets)] ++
    if c.args.isEmpty then [] else [("args", .floats c.args)])

/-- How many targets a gate takes. -/
def Arity.toDatum : Arity → Datum
  | .exactly k => .variant "Exactly" (.int k)
  | .atLeast k => .variant "AtLeast" (.int k)

/-- The targets and arguments of a gate. -/
def Signature.toDatum (s : Signature) : Datum :=
  .record [("arity", s.arity.toDatum),
    ("args", .list (s.args.map fun a =>
      .record [("name", .str a.name), ("required", .bool a.required)]))]

/-- A step of a gate. -/
def Step.toDatum (s : Step Float) : Datum :=
  .record [("key", s.key.toDatum), ("targets", .list (s.targets.map fun i => .int (Int.ofNat i))),
    ("args", .list (s.args.map ArgExpr.toDatum))]

/-- An entry of a calibration; its key is not set apart. -/
def CalibrationEntry.toDatum (e : CalibrationEntry Float) : Datum :=
  .record (e.slot.key.fields ++
    [("qubits", .strings e.slot.targets), ("params", ParamValues.toDatum e.params)])

/-- The options of a lowering. -/
def LoweringOptions.toDatum (o : LoweringOptions) : Datum :=
  .record [("max_depth", .int o.maxDepth), ("emit_expansions", .bool o.emitExpansions)]

/-! ### Instructions -/

/-- The name of a port in documents. -/
def Port.documentName : Port → String
  | .drive => "Drive"
  | .flux => "Flux"
  | .readout => "Readout"
  | .couplerFlux => "CouplerFlux"

/-- A channel. -/
def Channel.toDatum (c : Channel) : Datum :=
  .record [("port", .str c.port.documentName), ("qubits", .strings c.qubits)]

/-- The slot of a measurement. -/
def MeasurementTask.toDatum (t : MeasurementTask Float) : Datum :=
  .record [("qubit", .str t.qubit), ("cbit", .int t.cbit.toNat), ("time", .float t.time),
    ("signal", .str t.signal), ("weight", .str t.weight),
    ("params", ParamValues.toDatum t.params)]

/-- An assignment to the state. -/
def StateUpdate.toDatum : StateUpdate Float → Datum
  | .time q value => .variant "time" (.record [("qubit", .str q), ("value", .float value)])
  | .phase q value => .variant "phase" (.record [("qubit", .str q), ("value", .float value)])
  | .bias c value => .variant "bias" (.record [("channel", c.toDatum), ("value", .float value)])
  | .cbit task => .variant "cbit" task.toDatum

/-- An instruction. -/
def Instruction.toDatum : Instruction Float → Datum
  | .addWaveform channel waveform =>
    .variant "add_waveform"
      (.record [("channel", channel.toDatum), ("waveform", waveform.toDatum)])
  | .setState update => .variant "set_state" update.toDatum
  | .expand call => .variant "expand" call.toDatum

end PulseControl
