import PulseControl.Error

/-!
# Parameter schemas

A primitive gate declares its parameters in order, each with a type and possibly a default. Overrides
from a calibration are checked against the declarations and merged with the defaults; the outcome is
what a procedure reads.

* `PulseControl.ParamSpec.check` – a value against its declaration;
* `PulseControl.ParamSchema.validate` – a schema on its own: names once, defaults well typed;
* `PulseControl.ParamSchema.resolve` – overrides and defaults merged.
-/

namespace PulseControl

/-- The declaration of a parameter. -/
structure ParamSpec (α : Type) where
  name : String
  type : ParamType
  /-- The default; a parameter without one is absent unless overridden. -/
  default? : Option (ParamValue α) := none
  /-- The physical unit, for listings. -/
  unit : Option String := none
  /-- The strings that are admitted, where they are restricted. -/
  choices : Option (List String) := none
  /-- Whether negative numbers are refused. -/
  nonNegative : Bool := false

/-- The parameters of a gate, in order. -/
abbrev ParamSchema (α : Type) := List (ParamSpec α)

/-- The resolved parameters of a gate. -/
structure Params (α : Type) where
  gate : GateKey
  values : ParamValues α

namespace ParamSpec

variable {α : Type}

/-- A declaration with a default, whose type is that of the default. -/
def withDefault (name : String) (value : ParamValue α) : ParamSpec α :=
  { name, type := value.type, default? := some value }

/-- A float parameter. -/
def float (name : String) (value : α) : ParamSpec α := withDefault name (.float value)

/-- A string parameter. -/
def str (name value : String) : ParamSpec α := withDefault name (.str value)

/-- A table parameter with a default of two points. -/
def table (name : String) (p q : α × α) : ParamSpec α :=
  withDefault name (.table [[p.1, q.1], [p.2, q.2]])

/-- A parameter without default. -/
def optional (name : String) (type : ParamType) : ParamSpec α := { name, type }

/-- The declaration with a unit. -/
def inUnit (s : ParamSpec α) (unit : String) : ParamSpec α := { s with unit := some unit }

/-- The declaration restricted to some strings. -/
def oneOf (s : ParamSpec α) (choices : List String) : ParamSpec α :=
  { s with choices := some choices }

/-- The declaration without negative numbers. -/
def refusingNegative (s : ParamSpec α) : ParamSpec α := { s with nonNegative := true }

variable [Scalar α]

/-- What is wrong with a value of the declared type, if anything. -/
def fault? (s : ParamSpec α) : ParamValue α → Option (ValueFault α)
  | .str v =>
    s.choices.bind fun choices => if choices.contains v then none else some (.notAChoice v choices)
  | .table rows =>
    match Table.ofRows rows with
    | .ok _ => none
    | .error fault => some (.badTable fault)
  | .float v =>
    if ¬ Scalar.isFinite v then some (.notFinite v)
    else if s.nonNegative ∧ v < 0 then some (.negative v)
    else none
  | .int v => if s.nonNegative ∧ v < 0 then some (.negativeInt v) else none
  | .bool _ => none

/-- A value as the declared parameter, or what is wrong with it. -/
def check (s : ParamSpec α) (gate : GateKey) (value : ParamValue α) :
    Except (GateError α) (ParamValue α) :=
  match value.coerce? s.type with
  | none => .error (.parameterType gate s.name s.type value.type)
  | some v =>
    match s.fault? v with
    | some fault => .error (.parameterValue gate s.name fault)
    | none => .ok v

end ParamSpec

namespace ParamSchema

variable {α : Type}

/-- Whether a parameter is declared. -/
def declares (schema : ParamSchema α) (name : String) : Bool := schema.any fun s => s.name = name

variable [Scalar α]

/-- The check of a schema behind some names: none of them again, and every default well typed. -/
def validateFrom (gate : GateKey) (seen : List String) :
    ParamSchema α → Except (GateError α) Unit
  | [] => .ok ()
  | s :: rest => do
    if seen.contains s.name then throw (.duplicateParameter gate s.name)
    if let some value := s.default? then discard (s.check gate value)
    validateFrom gate (s.name :: seen) rest

/-- The check of a schema on its own. -/
def validate (schema : ParamSchema α) (gate : GateKey) : Except (GateError α) Unit :=
  validateFrom gate [] schema

/-- The value of a declared parameter: the checked override, or else the default as it stands. -/
def valueOf? (gate : GateKey) (overrides : ParamValues α) (s : ParamSpec α) :
    Except (GateError α) (Option (ParamValue α)) :=
  match overrides[s.name]? with
  | some v => (s.check gate v).map some
  | none => .ok s.default?

/-- The values of the declared parameters, put on top of those given. -/
def collect (gate : GateKey) (overrides : ParamValues α) :
    ParamSchema α → ParamValues α → Except (GateError α) (ParamValues α)
  | [], values => .ok values
  | s :: rest, values => do
    match ← valueOf? gate overrides s with
    | some v => collect gate overrides rest (values.insert s.name v)
    | none => collect gate overrides rest values

/-- **Resolution**: the overrides, all of them declared, merged with the defaults. -/
def resolve (schema : ParamSchema α) (gate : GateKey) (overrides : ParamValues α) :
    Except (GateError α) (Params α) :=
  match overrides.keys.find? fun name => !schema.declares name with
  | some name => .error (.unknownParameter gate name)
  | none => (collect gate overrides schema ∅).map fun values => ⟨gate, values⟩

end ParamSchema

end PulseControl
