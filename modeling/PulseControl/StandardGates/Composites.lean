import PulseControl.Registry.Builder

/-!
# Composite gates

The other gates of the library are sequences of rotations, phase shifts and controlled phases. A general
rotation is two quarter turns between frame changes, which is why its angles enter only as phases.

* `PulseControl.Composites.all` – the definitions, in the order of the library.
-/

namespace PulseControl

namespace Composites

variable {α : Type} [Scalar α]

/-- The argument of a name. -/
def arg (name : String) : ArgExpr α := .symbol name

/-- A quarter turn. -/
def quarterTurn : ArgExpr α := .const (Scalar.pi / 2.0)

/-- A driven rotation of the first target. -/
def rotation (theta phi : ArgExpr α) : Step α := ⟨.plain "rfUnitary", [0], [theta, phi]⟩

/-- A step on given targets. -/
def step (name : String) (targets : List Nat) (args : List (ArgExpr α)) : Step α :=
  ⟨.plain name, targets, args⟩

/-- A rotation by fixed angles, given in multiples of π. -/
def fixedRotation (name : String) (turn axis : α) : GateKey × GateDefinition α :=
  (.plain name,
    .compound (Signature.qubits 1)
      [rotation (.const (turn * Scalar.pi)) (.const (axis * Scalar.pi))])

/-- The rotations by fixed angles. -/
def fixedRotations : List (GateKey × GateDefinition α) :=
  [fixedRotation "X" 1 0,
    fixedRotation "Y" 1 0.5,
    fixedRotation "-X" 1 1,
    fixedRotation "-Y" 1 (-0.5),
    fixedRotation "X/2" 0.5 0,
    fixedRotation "Y/2" 0.5 0.5,
    fixedRotation "-X/2" 0.5 1,
    fixedRotation "-Y/2" 0.5 (-0.5)]

/-- The signature of a general rotation. -/
def generalSignature : Signature :=
  (((Signature.qubits 1).arg "theta").arg "phi").arg "lambda"

/-- The steps of a general rotation. -/
def generalSteps : List (Step α) :=
  [rotation quarterTurn (-arg "lambda"),
    rotation quarterTurn (.pi - arg "theta" - arg "lambda"),
    step "P" [0] [arg "theta" + arg "phi" + arg "lambda"]]

/-- **The composite gates**, each after those that it uses. -/
def all : List (GateKey × GateDefinition α) :=
  fixedRotations ++
    [(.plain "Rz",
        .compound ((Signature.qubits 1).arg "theta") [step "P" [0] [arg "theta"]]),
      (.plain "U", .compound generalSignature generalSteps),
      (.plain "u3",
        .compound generalSignature [step "U" [0] [arg "theta", arg "phi", arg "lambda"]]),
      (.plain "H", .compound (Signature.qubits 1) [step "U" [0] [quarterTurn, .const 0, .pi]]),
      (.plain "CX",
        .compound (Signature.qubits 2)
          [step "H" [1] [], step "CZ" [0, 1] [], step "H" [1] []])]

end Composites

end PulseControl
