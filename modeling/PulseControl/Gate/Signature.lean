import PulseControl.Error

/-!
# Signatures and steps

A signature says how many targets a gate takes and which arguments. A step of a gate invokes another
gate on some of the targets, given by their positions, with arguments computed from those of the whole.

* `PulseControl.Signature.check` – whether a call fits a signature;
* `PulseControl.Step.bind` – the call that a step makes inside a call of the whole gate.
-/

namespace PulseControl

/-- A positional argument. -/
structure ArgSpec where
  name : String
  required : Bool
  deriving DecidableEq, Repr, Inhabited

/-- The targets and arguments of a gate. -/
structure Signature where
  arity : Arity
  args : List ArgSpec
  deriving DecidableEq, Repr, Inhabited

namespace Signature

/-- A gate on a fixed number of qubits, without arguments. -/
def qubits (n : Nat) : Signature := ⟨.exactly n, []⟩

/-- The signature with one more argument that callers must give. -/
def arg (s : Signature) (name : String) : Signature := { s with args := s.args ++ [⟨name, true⟩] }

/-- The signature with one more argument that callers may give. -/
def optionalArg (s : Signature) (name : String) : Signature :=
  { s with args := s.args ++ [⟨name, false⟩] }

/-- The names of the arguments, in order. -/
def argNames (s : Signature) : List String := s.args.map ArgSpec.name

/-- How many arguments callers must give. -/
def requiredCount (s : Signature) : Nat := s.args.countP ArgSpec.required

/-- Whether a number of arguments is accepted. -/
def acceptsArgs (s : Signature) (n : Nat) : Bool := s.requiredCount ≤ n && n ≤ s.args.length

/-- The text of the accepted numbers of arguments. -/
def expectedArgs (s : Signature) : String := argumentRange s.requiredCount s.args.length

/-- The error of a number of arguments that is not accepted. -/
def argumentCountError {α : Type} (s : Signature) (key : GateKey) (got : Nat) : GateError α :=
  .argumentCount key s.requiredCount s.args.length got

/-- The first element of a list that stands there before. -/
def firstRepeated? (seen : List Qubit) : List Qubit → Option Qubit
  | [] => none
  | q :: qs => if seen.contains q then some q else firstRepeated? (q :: seen) qs

/-- **The check of a call**: number of targets, no target twice, number of arguments, and finite
arguments, in this order. -/
def check {α : Type} [Scalar α] (s : Signature) (call : GateCall α) : Except (GateError α) Unit :=
  if ¬ s.arity.accepts call.targets.length then
    .error (.targetCount call.key s.arity call.targets.length)
  else
    match firstRepeated? [] call.targets with
    | some q => .error (.duplicateTarget call.key q)
    | none =>
      if ¬ s.acceptsArgs call.args.length then
        .error (s.argumentCountError call.key call.args.length)
      else
        match (s.args.zip call.args).find? fun p => !Scalar.isFinite p.2 with
        | some (spec, value) =>
          .error (.invalidArgument call.key (.declared spec.name) (.notFinite value))
        | none => .ok ()

end Signature

/-- A step of a gate: another gate on some of the targets. -/
structure Step (α : Type) where
  /-- The gate that is invoked. -/
  key : GateKey
  /-- The positions of its targets among the targets of the whole. -/
  targets : List Nat
  /-- Its arguments, over the argument names of the whole. -/
  args : List (ArgExpr α)
  deriving Repr, Inhabited

namespace GateCall

variable {α : Type}

/-- The target at a position. -/
def target (call : GateCall α) (i : Nat) : Except (GateError α) Qubit :=
  match call.targets[i]? with
  | some q => .ok q
  | none => .error (.targetCount call.key (.atLeast (i + 1)) call.targets.length)

/-- The argument at a position. -/
def argument (call : GateCall α) (i : Nat) : Except (GateError α) α :=
  match call.args[i]? with
  | some x => .ok x
  | none => .error (.argumentCount call.key (i + 1) (i + 1) call.args.length)

end GateCall

namespace Step

variable {α : Type} [Scalar α]

/-- The value of an argument expression, which must be finite. -/
def bindArg (key : GateKey) (names : List String) (parent : GateCall α) (e : ArgExpr α) :
    Except (GateError α) α :=
  match (e.evalPositional names parent.args).filter Scalar.isFinite with
  | some v => .ok v
  | none => .error (.invalidArgument key (.computed e) (.noFiniteValue parent.key))

/-- **The call of a step** inside a call of the whole gate. -/
def bind (s : Step α) (parent : GateCall α) (signature : Signature) :
    Except (GateError α) (GateCall α) := do
  let targets ← s.targets.mapM parent.target
  let args ← s.args.mapM (bindArg s.key signature.argNames parent)
  return ⟨s.key, targets, args⟩

end Step

end PulseControl
