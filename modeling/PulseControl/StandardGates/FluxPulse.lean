import PulseControl.Registry.Basic
import PulseControl.Waveform.Calculus

/-!
# Flux pulses

Two qubits and their coupler are detuned together by three flat pulses. The window opens when both qubits
are free, and both cursors move to its end.

* `PulseControl.FluxPulse.play` – the instructions;
* `PulseControl.FluxPulse.procedure` – the procedure.
-/

namespace PulseControl

namespace FluxPulse

variable {α : Type} [Scalar α]

/-- The parameters of a flux pulse. -/
def schema : ParamSchema α :=
  [((ParamSpec.float "duration" 50e-9).inUnit "s").refusingNegative,
    (ParamSpec.float "amp1" 0.8).inUnit "a.u.",
    (ParamSpec.float "amp2" 0.8).inUnit "a.u.",
    (ParamSpec.float "ampc" 0.8).inUnit "a.u.",
    ((ParamSpec.float "edge" 0).inUnit "s").refusingNegative,
    ((ParamSpec.float "buffer" 0).inUnit "s").refusingNegative,
    (ParamSpec.float "phi1" 0).inUnit "rad",
    (ParamSpec.float "phi2" 0).inUnit "rad"]

/-- The parameters that a flux pulse reads. -/
def reads : List String :=
  ["duration", "amp1", "amp2", "ampc", "edge", "buffer", "phi1", "phi2"]

/-- The resolved parameters. -/
structure Pulse (α : Type) where
  duration : α
  /-- The amplitude on the first qubit. -/
  amp1 : α
  /-- The amplitude on the second qubit. -/
  amp2 : α
  /-- The amplitude on the coupler. -/
  ampc : α
  edge : α
  buffer : α
  /-- The phase shift of the first qubit. -/
  phi1 : α
  /-- The phase shift of the second qubit. -/
  phi2 : α

/-- The parameters read one after the other. -/
def Pulse.ofParams (params : Params α) : Except (GateError α) (Pulse α) := do
  return {
    duration := ← params.float "duration"
    amp1 := ← params.float "amp1"
    amp2 := ← params.float "amp2"
    ampc := ← params.float "ampc"
    edge := ← params.float "edge"
    buffer := ← params.float "buffer"
    phi1 := ← params.float "phi1"
    phi2 := ← params.float "phi2" }

/-- The three pulses, both cursors behind them, and the phase shifts. -/
def play (p : Pulse α) (a b : Qubit) (l : Ledger α) : List (Instruction α) :=
  let start := l.maxTime [a, b] + p.buffer
  let envelope := (Waveform.square p.duration p.edge .cos >>> (p.duration / 2.0)) >>> start
  let finish := start + p.duration + p.buffer
  [.addWaveform (.flux a) (p.amp1 * envelope),
    .addWaveform (.flux b) (p.amp2 * envelope),
    .addWaveform (.couplerFlux a b) (p.ampc * envelope),
    .setTime a finish,
    .setTime b finish,
    .setPhase a (l.phase a + p.phi1),
    .setPhase b (l.phase b + p.phi2)]

/-- **Three aligned flux pulses** on two qubits and their coupler. -/
def procedure : Procedure α where
  signature := Signature.qubits 2
  reads := reads
  subcalls := []
  synthesize call params := do
    let a ← call.target 0
    let b ← call.target 1
    let pulse ← Pulse.ofParams params
    return .defer (play pulse a b)

end FluxPulse

end PulseControl
