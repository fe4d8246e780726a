import PulseControl.Registry.Basic
import PulseControl.Waveform.Mixing

/-!
# Cross resonance

Two qubits are coupled by driving one at the frequency of the other: a flat pulse on the drive line of
the control, and possibly a second one on that of the target with corrections at its edges. The echoed
variant plays the pass twice with opposite sign and flips the control after each.

* `PulseControl.CrossResonance.pass` – the instructions of one pass;
* `PulseControl.CrossResonance.procedure` – both variants.
-/

namespace PulseControl

namespace CrossResonance

/-- The gate that flips the control in the echoed variant. -/
def echoGate : GateKey := .plain "X"

/-- Whether the gate is echoed. -/
inductive Variant where
  | direct
  | echoed
  deriving DecidableEq, Repr

variable {α : Type} [Scalar α]

/-- The factor on the corrections at the edges, so that calibrated values are near 1. -/
def correctionScale : α := 1e-9

/-- The parameters of both variants. -/
def schema : ParamSchema α :=
  [((ParamSpec.float "duration" 100e-9).inUnit "s").refusingNegative,
    (ParamSpec.float "frequency" 5e9).inUnit "Hz",
    (ParamSpec.str "edge_type" "cos").oneOf [EdgeShape.cos.name, EdgeShape.linear.name],
    ((ParamSpec.float "edge" 20e-9).inUnit "s").refusingNegative,
    (ParamSpec.float "amp1" 0.8).inUnit "a.u.",
    (ParamSpec.float "amp2" 0).inUnit "a.u.",
    ParamSpec.float "drag" 0,
    ParamSpec.float "skew" 0,
    (ParamSpec.float "global_phase" 0).inUnit "rad",
    (ParamSpec.float "relative_phase" 0).inUnit "rad",
    (ParamSpec.float "phi1" 0).inUnit "rad",
    (ParamSpec.float "phi2" 0).inUnit "rad",
    ((ParamSpec.float "buffer" 0).inUnit "s").refusingNegative]

/-- The parameters that both variants read. -/
def reads : List String :=
  ["duration", "frequency", "edge_type", "edge", "amp1", "amp2", "drag", "skew", "global_phase",
    "relative_phase", "phi1", "phi2", "buffer"]

/-- The resolved parameters. -/
structure Pulse (α : Type) where
  duration : α
  frequency : α
  edgeShape : EdgeShape
  edge : α
  /-- The amplitude on the control. -/
  amp1 : α
  /-- The amplitude on the target. -/
  amp2 : α
  /-- The antisymmetric correction at the edges. -/
  drag : α
  /-- The symmetric correction at the edges. -/
  skew : α
  globalPhase : α
  relativePhase : α
  /-- The phase shift of the control. -/
  phi1 : α
  /-- The phase shift of the target. -/
  phi2 : α
  buffer : α

namespace Pulse

/-- The parameters read one after the other. -/
def ofParams (params : Params α) : Except (GateError α) (Pulse α) := do
  return {
    duration := ← params.float "duration"
    frequency := ← params.float "frequency"
    edgeShape := ← params.edgeShape "edge_type"
    edge := ← params.float "edge"
    amp1 := ← params.float "amp1"
    amp2 := ← params.float "amp2"
    drag := ← params.float "drag"
    skew := ← params.float "skew"
    globalPhase := ← params.float "global_phase"
    relativePhase := ← params.float "relative_phase"
    phi1 := ← params.float "phi1"
    phi2 := ← params.float "phi2"
    buffer := ← params.float "buffer" }

/-- When a pass that starts at `t` ends. -/
def finish (p : Pulse α) (t : α) : α := t + p.duration + p.edge + p.buffer

/-- The flat pulse of a pass that starts at `t`. -/
def flatTop (p : Pulse α) (t : α) : Waveform α :=
  Waveform.square p.duration p.edge p.edgeShape >>>
    (t + p.duration / 2.0 + p.edge / 2.0 + p.buffer / 2.0)

/-- The quadrature of the pulse on the target: corrections at both edges, each where its parameter is
positive. -/
def corrections (p : Pulse α) (t : α) : Waveform α :=
  let slope := (Waveform.step p.edge p.edgeShape).derivative
  let rise := t + (p.edge + p.buffer) / 2.0
  let atRise := slope >>> rise
  let atFall := slope >>> (rise + p.duration)
  let drag := if 0 < p.drag then (p.drag * correctionScale) * (atRise - atFall) else .zero
  let skew := if 0 < p.skew then (p.skew * correctionScale) * (atRise + atFall) else .zero
  .zero + drag + skew

/-- The instructions on the drive of the control. -/
def onControl (p : Pulse α) (l : Ledger α) (control target : Qubit) (t sign : α) :
    List (Instruction α) :=
  if 0 < p.amp1 ∧ 0 < p.duration then
    let phase := p.globalPhase - l.phase target
    let mixed := IqPair.mix ⟨p.amp1 * p.flatTop t, .zero⟩ ⟨phase, p.frequency, none⟩
    [.addWaveform (.drive control) (sign * mixed.i), .setTime control (p.finish t)]
  else []

/-- The instructions on the drive of the target. -/
def onTarget (p : Pulse α) (l : Ledger α) (target : Qubit) (t sign : α) :
    List (Instruction α) :=
  if 0 < p.amp2 ∧ 0 < p.duration then
    let phase := p.globalPhase + p.relativePhase - l.phase target
    let mixed := IqPair.mix ⟨p.amp2 * p.flatTop t, p.corrections t⟩ ⟨phase, p.frequency, none⟩
    [.addWaveform (.drive target) (sign * mixed.i), .setTime target (p.finish t)]
  else []

end Pulse

/-- **One pass**, from when both qubits are free, with both drive pulses times `sign`. -/
def pass (p : Pulse α) (control target : Qubit) (sign : α) (l : Ledger α) :
    List (Instruction α) :=
  let t := l.maxTime [control, target]
  p.onControl l control target t sign ++ p.onTarget l target t sign ++
    [.setPhase control (l.phase control + p.phi1), .setPhase target (l.phase target + p.phi2)]

/-- **Cross resonance** of a control and a target. -/
def procedure (variant : Variant) : Procedure α where
  signature := Signature.qubits 2
  reads := reads
  subcalls :=
    match variant with
    | .direct => []
    | .echoed => [⟨echoGate, [0], []⟩]
  synthesize call params := do
    let pulse ← Pulse.ofParams params
    let control ← call.target 0
    let target ← call.target 1
    match variant with
    | .direct => return .defer (pass pulse control target 1)
    | .echoed =>
      let flip : Instruction α := .expand ⟨echoGate, [control], []⟩
      return ((Synthesis.defer (pass pulse control target 1)).emit flip |>.andThen
        (pass pulse control target (-1))).emit flip

end CrossResonance

end PulseControl
