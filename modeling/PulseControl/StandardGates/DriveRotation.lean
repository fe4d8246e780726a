import PulseControl.Registry.Basic
import PulseControl.Waveform.Mixing

/-!
# Rotations driven by a microwave pulse

A rotation by `theta` about the equatorial axis at angle `phi` is one pulse on the drive line. Its
amplitude and duration come from calibrated tables over `theta / π`, its phase from a table over
`phi / π`; the phase of the qubit's frame is added when the pulse is placed in time.

* `PulseControl.DriveRotation.procedure` – the procedure, the same for every pair of levels;
* `PulseControl.DriveRotation.schema` – its parameters.
-/

namespace PulseControl

namespace DriveRotation

variable {α : Type} [Scalar α]

/-- The parameters of a rotation. -/
def schema : ParamSchema α :=
  [(ParamSpec.str "shape" "CosPulse").oneOf PulseShape.names,
    (ParamSpec.table "amp" (0, 0) (1, 0.653)).inUnit "a.u.",
    (ParamSpec.table "duration" (0, 10e-9) (1, 10e-9)).inUnit "s",
    (ParamSpec.table "phase" (-1, -1) (1, 1)).inUnit "π",
    (ParamSpec.float "frequency" 5e9).inUnit "Hz",
    ParamSpec.float "alpha" 1,
    ParamSpec.float "beta" 0,
    (ParamSpec.float "delta" 0).inUnit "Hz",
    (ParamSpec.float "buffer" 0).inUnit "s" |>.refusingNegative]

/-- The parameters that a rotation reads. -/
def reads : List String :=
  ["shape", "amp", "duration", "phase", "frequency", "alpha", "beta", "delta", "buffer"]

/-- What a rotation takes from its parameters and arguments. -/
structure Pulse (α : Type) where
  shape : PulseShape
  amp : α
  duration : α
  /-- The phase of the pulse itself. -/
  phase : α
  frequency : α
  alpha : α
  beta : α
  delta : α
  buffer : α

namespace Pulse

/-- The pulse of a rotation, read off the tables. -/
def ofParams (params : Params α) (theta phi : α) : Except (GateError α) (Pulse α) := do
  let shape ← params.pulseShape "shape"
  let amp := (← params.table "amp").interp (theta / Scalar.pi)
  let duration := (← params.table "duration").interp (theta / Scalar.pi)
  let phase := Scalar.pi * (← params.table "phase").interp (phi / Scalar.pi)
  return {
    shape, amp, duration, phase
    frequency := ← params.float "frequency"
    alpha := ← params.float "alpha"
    beta := ← params.float "beta"
    delta := ← params.float "delta"
    buffer := ← params.float "buffer" }

/-- Whether there is nothing to play. -/
def isEmpty (p : Pulse α) : Bool := p.amp == 0 || p.duration ≤ 0

/-- The DRAG factor; a parameter of 0 turns the correction off. -/
def drag? (p : Pulse α) : Option α :=
  if p.alpha == 0 || p.beta == 0 then none else some (p.beta / p.alpha)

/-- The pulse before it is placed in time: it starts at 0. -/
def baseband (p : Pulse α) : IqPair α :=
  let envelope := (p.amp * Waveform.envelope p.shape p.duration) >>> (p.duration / 2.0)
  IqPair.mix ⟨envelope, .zero⟩ ⟨p.phase, p.delta, p.drag?⟩

/-- The pulse at the cursor of the qubit, which moves behind it. -/
def play (p : Pulse α) (q : Qubit) (l : Ledger α) : List (Instruction α) :=
  let t := l.time q
  let placed := p.baseband.delay (t + p.buffer / 2.0)
  let modulated := placed.modulate (l.phase q) p.frequency
  [.addWaveform (.drive q) modulated.i, .setTime q (t + p.duration + p.buffer)]

end Pulse

/-- **Rotation by `theta` about the axis at `phi`.** -/
def procedure : Procedure α where
  signature := ((Signature.qubits 1).arg "theta").arg "phi"
  reads := reads
  subcalls := []
  synthesize call params := do
    let q ← call.target 0
    let theta ← call.argument 0
    let phi ← call.argument 1
    let pulse ← Pulse.ofParams params theta phi
    if pulse.isEmpty then return ∅
    return .defer (pulse.play q)

end DriveRotation

end PulseControl
