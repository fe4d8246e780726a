import PulseControl.Gate.Signature
import PulseControl.Param.Access
import PulseControl.Synthesis

/-!
# Gate definitions and registries

A gate is either primitive, synthesized by a procedure from resolved parameters, or compound, a fixed
sequence of other gates. A registry holds definitions and the order in which they were registered.

* `PulseControl.Procedure`, `PulseControl.GateDefinition` – the definitions;
* `PulseControl.Registry.checkCall`, `PulseControl.Registry.resolve` – calls and parameters checked;
* `PulseControl.Registry.synthesize` – the synthesis of a call; a compound gate gives a marker per step.
-/

namespace PulseControl

/-- How a primitive gate turns a checked call and resolved parameters into a synthesis. -/
structure Procedure (α : Type) where
  /-- The targets and arguments that it takes. -/
  signature : Signature
  /-- The parameters that it reads. -/
  reads : List String
  /-- The gates that it may invoke. -/
  subcalls : List (Step α)
  /-- The synthesis of a call. -/
  synthesize : GateCall α → Params α → Except (GateError α) (Synthesis α)

/-- What a gate is. -/
inductive GateDefinition (α : Type) where
  /-- A procedure with its parameters. -/
  | primitive (schema : ParamSchema α) (procedure : Procedure α)
  /-- Other gates in sequence. -/
  | compound (signature : Signature) (steps : List (Step α))

namespace GateDefinition

variable {α : Type}

/-- The targets and arguments of a gate. -/
def signature : GateDefinition α → Signature
  | .primitive _ procedure => procedure.signature
  | .compound signature _ => signature

/-- The parameters of a gate; compound gates have no schema. -/
def schema? : GateDefinition α → Option (ParamSchema α)
  | .primitive schema _ => some schema
  | .compound .. => none

/-- The steps by which a gate may invoke others. -/
def subcalls : GateDefinition α → List (Step α)
  | .primitive _ procedure => procedure.subcalls
  | .compound _ steps => steps

/-- Whether a gate is compound. -/
def isCompound : GateDefinition α → Bool
  | .primitive .. => false
  | .compound .. => true

end GateDefinition

/-- Gate definitions by key. -/
structure Registry (α : Type) where
  entries : Std.ExtTreeMap GateKey (GateDefinition α)
  /-- The keys in the order of registration. -/
  order : List GateKey

namespace Registry

variable {α : Type}

/-- The definition of a gate. -/
def get? (r : Registry α) (key : GateKey) : Option (GateDefinition α) := r.entries[key]?

/-- The definition of a gate, or the error that there is none. -/
def get (r : Registry α) (key : GateKey) : Except (GateError α) (GateDefinition α) :=
  match r.get? key with
  | some definition => .ok definition
  | none => .error (.unknownGate key)

/-- Whether a gate is registered. -/
def contains (r : Registry α) (key : GateKey) : Bool := (r.get? key).isSome

/-- The keys in the order of registration. -/
def keys (r : Registry α) : List GateKey := r.order

/-- The number of gates. -/
def size (r : Registry α) : Nat := r.order.length

variable [Scalar α]

/-- The definition of the gate of a call that fits its signature. -/
def checkCall (r : Registry α) (call : GateCall α) :
    Except (GateError α) (GateDefinition α) := do
  let definition ← r.get call.key
  definition.signature.check call
  return definition

/-- The parameters of a gate under some overrides. A compound gate has none, so every override of it
is unknown. -/
def resolve (r : Registry α) (key : GateKey) (overrides : ParamValues α) :
    Except (GateError α) (Params α) := do
  match ← r.get key with
  | .primitive schema _ => ParamSchema.resolve schema key overrides
  | .compound .. =>
    match overrides.keys.head? with
    | some name => throw (.unknownParameter key name)
    | none => return Params.empty key

/-- The markers of a compound gate, one for every step bound to the call. -/
def markers (call : GateCall α) (signature : Signature) (steps : List (Step α)) :
    Except (GateError α) (Synthesis α) := do
  let calls ← steps.mapM fun step => step.bind call signature
  return ⟨calls.map fun c => .emit (.expand c), []⟩

/-- **The synthesis of a checked call.** -/
def synthesize (r : Registry α) (call : GateCall α) (params : Params α) :
    Except (GateError α) (Synthesis α) := do
  match ← r.get call.key with
  | .primitive _ procedure => procedure.synthesize call params
  | .compound signature steps => markers call signature steps

end Registry

end PulseControl
