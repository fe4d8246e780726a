import PulseControl.Gate.ArgExpr
import PulseControl.Gate.Call
import PulseControl.Param.Value
import PulseControl.Text.Integer
import PulseControl.Waveform.Shape

/-!
# Errors

Registering, resolving and lowering gates fail for the causes listed here. A cause keeps the values
that it is about; its wording is one function, `PulseControl.GateError.message`.
-/

namespace PulseControl

/-- What is wrong with a parameter value of the right type. -/
inductive ValueFault (α : Type) where
  /-- A string that is none of the declared choices. -/
  | notAChoice (value : String) (choices : List String)
  /-- A float that is not finite. -/
  | notFinite (value : α)
  /-- A negative float where none is allowed. -/
  | negative (value : α)
  /-- A negative whole number where none is allowed. -/
  | negativeInt (value : Int64)
  /-- Rows that are no table. -/
  | badTable (fault : TableFault)
  /-- A string that names no shape. -/
  | badShape (fault : WaveError α)
  /-- A string that is no whole number. -/
  | badInteger (fault : IntegerFault)

/-- What is wrong with an argument. -/
inductive ArgumentFault (α : Type) where
  /-- The argument is not finite. -/
  | notFinite (value : α)
  /-- The argument is no whole number. -/
  | notWhole (value : α)
  /-- The argument is larger than any classical bit index. -/
  | outOfRange (value : α)
  /-- The argument is a duration below zero. -/
  | negativeTime (value : α)
  /-- The expression for the argument has no finite value at the arguments of the gate around it. -/
  | noFiniteValue (parent : GateKey)

/-- How an argument is called: by its declared name, or by the expression that computes it. -/
inductive ArgumentName (α : Type) where
  | declared (name : String)
  | computed (e : ArgExpr α)

/-- The causes for which a gate cannot be registered, resolved or lowered. -/
inductive GateError (α : Type) where
  /-- There is no such gate. -/
  | unknownGate (gate : GateKey)
  /-- There is such a gate already. -/
  | duplicateGate (gate : GateKey)
  /-- Gates that are defined by each other in a circle. -/
  | gateCycle (cycle : List GateKey)
  /-- A parameter that is declared twice. -/
  | duplicateParameter (gate : GateKey) (name : String)
  /-- A parameter that is read without being declared. -/
  | undeclaredParameter (gate : GateKey) (name : String)
  /-- An override for a parameter that is not declared. -/
  | unknownParameter (gate : GateKey) (name : String)
  /-- A parameter value of another type than the declared one. -/
  | parameterType (gate : GateKey) (name : String) (expected found : ParamType)
  /-- A parameter value that its declaration excludes. -/
  | parameterValue (gate : GateKey) (name : String) (fault : ValueFault α)
  /-- A number of targets that the gate does not take. -/
  | targetCount (gate : GateKey) (expected : Arity) (got : Nat)
  /-- A qubit that is a target twice. -/
  | duplicateTarget (gate : GateKey) (qubit : Qubit)
  /-- A number of arguments other than the gate takes, between `least` and `most`. -/
  | argumentCount (gate : GateKey) (least most got : Nat)
  /-- An argument that the gate does not accept. -/
  | invalidArgument (gate : GateKey) (name : ArgumentName α) (fault : ArgumentFault α)
  /-- A name in the definition of a gate that is none of its arguments. -/
  | unboundSymbol (gate : GateKey) (symbol : String)
  /-- Gates inside gates beyond the limit. -/
  | expansionDepth (gate : GateKey) (limit : Nat)
  /-- A gate that invoked another one without declaring it. -/
  | undeclaredExpansion (gate inner : GateKey) (targets : List Qubit)
  /-- An error of the pulse algebra. -/
  | wave (fault : WaveError α)

/-- An accepted number of arguments: one number, or a range. -/
def argumentRange (least most : Nat) : String :=
  if least = most then toString least else toString least ++ "..=" ++ toString most

/-- The wording of a fault. -/
def ValueFault.message : ValueFault Float → String
  | .notAChoice value choices =>
    "'" ++ value ++ "' is not one of " ++ ", ".intercalate choices
  | .notFinite value => Decimal.NumberStyle.plain.write value ++ " is not finite"
  | .negative value => Decimal.NumberStyle.plain.write value ++ " is negative"
  | .negativeInt value => toString value.toInt ++ " is negative"
  | .badTable fault => fault.message
  | .badShape fault => fault.message
  | .badInteger fault => fault.message

/-- The wording of a fault. -/
def ArgumentFault.message : ArgumentFault Float → String
  | .notFinite value => Decimal.NumberStyle.plain.write value ++ " is not finite"
  | .notWhole value => Decimal.NumberStyle.plain.write value ++ " is not an integer"
  | .outOfRange value => Decimal.NumberStyle.plain.write value ++ " is out of range"
  | .negativeTime value =>
    Decimal.NumberStyle.plain.write value ++ " is not a non-negative time"
  | .noFiniteValue parent => "has no finite value with arguments of '" ++ parent.text ++ "'"

/-- The text of the name of an argument. -/
def ArgumentName.text : ArgumentName Float → String
  | .declared name => name
  | .computed e => e.text

/-- The wording of an error. A cycle is told from its first gate around to that gate again. -/
def GateError.message : GateError Float → String
  | .unknownGate gate => "Unknown gate '" ++ gate.text ++ "'"
  | .duplicateGate gate => "Gate '" ++ gate.text ++ "' is already registered"
  | .gateCycle cycle =>
    "Gate definitions form a cycle: " ++
      " -> ".intercalate ((cycle ++ cycle.take 1).map GateKey.text)
  | .duplicateParameter gate name =>
    "Gate '" ++ gate.text ++ "' declares parameter '" ++ name ++ "' more than once"
  | .undeclaredParameter gate name =>
    "Gate '" ++ gate.text ++ "' reads parameter '" ++ name ++
      "' which its schema does not declare"
  | .unknownParameter gate name =>
    "Unknown parameter '" ++ name ++ "' for gate '" ++ gate.text ++ "'"
  | .parameterType gate name expected found =>
    "Parameter '" ++ name ++ "' of gate '" ++ gate.text ++ "' expects " ++ expected.name ++
      ", got " ++ found.name
  | .parameterValue gate name fault =>
    "Invalid value for parameter '" ++ name ++ "' of gate '" ++ gate.text ++ "': " ++
      fault.message
  | .targetCount gate expected got =>
    "Gate '" ++ gate.text ++ "' takes " ++ expected.text ++ " qubit targets, got " ++
      toString got
  | .duplicateTarget gate qubit =>
    "Duplicate target " ++ qubit ++ " for gate '" ++ gate.text ++ "'"
  | .argumentCount gate least most got =>
    "Gate '" ++ gate.text ++ "' takes " ++ argumentRange least most ++ " arguments, got " ++
      toString got
  | .invalidArgument gate name fault =>
    "Invalid argument '" ++ name.text ++ "' for gate '" ++ gate.text ++ "': " ++ fault.message
  | .unboundSymbol gate symbol =>
    "Symbol '" ++ symbol ++ "' in definition of '" ++ gate.text ++
      "' does not name an argument"
  | .expansionDepth gate limit =>
    "Expansion of '" ++ gate.text ++ "' exceeds maximum depth " ++ toString limit
  | .undeclaredExpansion gate inner targets =>
    "Gate '" ++ gate.text ++ "' expanded '" ++ inner.text ++ "' on [" ++
      ", ".intercalate targets ++ "] without declaring it"
  | .wave fault => "Waveform error: " ++ fault.message

end PulseControl
