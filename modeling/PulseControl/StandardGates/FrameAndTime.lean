import PulseControl.Registry.Basic

/-!
# Gates without pulses

Three gates only move what the ledger records: the phase of a frame, a cursor, or the cursors of several
qubits to the latest of them.

* `PulseControl.PhaseShift.procedure`, `PulseControl.Delay.procedure`, `PulseControl.Barrier.procedure`.
-/

namespace PulseControl

variable {α : Type} [Scalar α]

/-- **Virtual rotation about the z axis**: the angle goes into the phase of the frame. -/
def PhaseShift.procedure : Procedure α where
  signature := (Signature.qubits 1).arg "theta"
  reads := []
  subcalls := []
  synthesize call _ := do
    let q ← call.target 0
    let theta ← call.argument 0
    return .defer fun l => [.setPhase q (l.phase q + theta)]

/-- **Idling** for a time that is not negative. -/
def Delay.procedure : Procedure α where
  signature := (Signature.qubits 1).arg "duration"
  reads := []
  subcalls := []
  synthesize call _ := do
    let q ← call.target 0
    let duration ← call.argument 0
    if ¬ Scalar.isFinite duration ∨ duration < 0 then
      throw (.invalidArgument call.key (.declared "duration") (.negativeTime duration))
    return .defer fun l => [.setTime q (l.time q + duration)]

namespace Barrier

/-- The cursors of the qubits that lag behind, set to the latest cursor of all. -/
def align (qs : List Qubit) (l : Ledger α) : List (Instruction α) :=
  let latest := l.maxTime qs
  (qs.filter fun q => l.time q < latest).map fun q => .setTime q latest

/-- **Alignment** of the cursors of all targets. -/
def procedure : Procedure α where
  signature := ⟨.atLeast 1, []⟩
  reads := []
  subcalls := []
  synthesize call _ := .ok (.defer (align call.targets))

end Barrier

end PulseControl
