import PulseControl.Param.Schema

/-!
# Reading parameters

A procedure reads its parameters by name and type. Reading a name that was not resolved, or a value of
another type, is an error of the gate.

* `PulseControl.Params.float`, `PulseControl.Params.str`, `PulseControl.Params.table` – the readers;
* `PulseControl.Params.edgeShape`, `PulseControl.Params.pulseShape`, `PulseControl.Params.integer` –
  strings that name something else.
-/

namespace PulseControl.Params

variable {α : Type}

/-- No parameters at all. -/
def empty (gate : GateKey) : Params α := ⟨gate, ∅⟩

/-- The error of a name that was not resolved. -/
def missing (p : Params α) (name : String) : GateError α := .undeclaredParameter p.gate name

/-- The error of a value that has another type. -/
def mismatch (p : Params α) (name : String) (expected : ParamType) (found : ParamValue α) :
    GateError α :=
  .parameterType p.gate name expected found.type

variable [Scalar α]

/-- A number. -/
def float (p : Params α) (name : String) : Except (GateError α) α :=
  match p.values[name]? with
  | some (.float v) => .ok v
  | some (.int i) => .ok (Scalar.ofInt i.toInt)
  | some other => .error (p.mismatch name .float other)
  | none => .error (p.missing name)

/-- A number that may be absent. -/
def float? (p : Params α) (name : String) : Except (GateError α) (Option α) :=
  if p.values.contains name then (p.float name).map some else .ok none

/-- A string. -/
def str (p : Params α) (name : String) : Except (GateError α) String :=
  match p.values[name]? with
  | some (.str v) => .ok v
  | some other => .error (p.mismatch name .str other)
  | none => .error (p.missing name)

/-- A string that names something, or the fault of the name. -/
def named {τ : Type} (p : Params α) (name : String) (read : String → Except (ValueFault α) τ) :
    Except (GateError α) τ := do
  match read (← p.str name) with
  | .ok x => .ok x
  | .error fault => .error (.parameterValue p.gate name fault)

/-- A string that names an edge shape. -/
def edgeShape (p : Params α) (name : String) : Except (GateError α) EdgeShape :=
  p.named name fun s => (EdgeShape.parse s).mapError .badShape

/-- A string that names a pulse shape. -/
def pulseShape (p : Params α) (name : String) : Except (GateError α) PulseShape :=
  p.named name fun s => (PulseShape.parse s).mapError .badShape

/-- A string that is a whole number of 32 bits. -/
def integer (p : Params α) (name : String) : Except (GateError α) Int :=
  p.named name fun s => (readInt32 s).mapError .badInteger

/-- An interpolation table. -/
def table (p : Params α) (name : String) : Except (GateError α) (Table α) :=
  match p.values[name]? with
  | some (.table rows) =>
    match Table.ofRows rows with
    | .ok t => .ok t
    | .error fault => .error (.parameterValue p.gate name (.badTable fault))
  | some other => .error (p.mismatch name .table other)
  | none => .error (p.missing name)

end PulseControl.Params
