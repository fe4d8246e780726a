import PulseControl.Registry.Basic
import PulseControl.Waveform.Calculus

/-!
# Readout

A measurement plays a pulse on the readout line that rings up, holds and rings down, sets the flux bias
of the qubit and records the slot of the result. The bit of the slot may be given; otherwise the next
free one is taken, and a negative number asks for no slot at all.

* `PulseControl.Readout.BitChoice.ofCall` – what the optional argument asks for;
* `PulseControl.Readout.procedure` – the procedure.
-/

namespace PulseControl

namespace Readout

/-- The kinds of signal that a measurement can ask for. -/
def signals : List String := ["state", "count", "iq", "trace", "population"]

variable {α : Type} [Scalar α]

/-- The parameters of a measurement. -/
def schema : ParamSchema α :=
  [((ParamSpec.float "duration" 1e-6).inUnit "s").refusingNegative,
    (ParamSpec.float "amp" 0.1).inUnit "a.u.",
    (ParamSpec.float "frequency" 6.5e9).inUnit "Hz",
    (ParamSpec.float "bias" 0).inUnit "a.u.",
    (ParamSpec.str "signal" "state").oneOf signals,
    ParamSpec.str "weight" "const(1)",
    (ParamSpec.float "phi" 0).inUnit "rad",
    (ParamSpec.float "threshold" 0).inUnit "a.u.",
    (ParamSpec.float "ring_up_amp" 0.1).inUnit "a.u.",
    ((ParamSpec.float "ring_up_time" 50e-9).inUnit "s").refusingNegative,
    ((ParamSpec.float "ring_edge_time" 20e-9).inUnit "s").refusingNegative]

/-- The parameters that a measurement reads. -/
def reads : List String :=
  ["duration", "amp", "frequency", "bias", "signal", "weight", "ring_up_amp", "ring_up_time",
    "ring_edge_time"]

/-- Which classical bit a measurement is recorded under. -/
inductive BitChoice where
  /-- The next free one. -/
  | next
  /-- A given one. -/
  | given (bit : UInt32)
  /-- None. -/
  | unrecorded
  deriving DecidableEq, Repr

/-- The greatest classical bit. -/
def maxBit : Nat := UInt32.size - 1

/-- What the optional argument of a call asks for. -/
def BitChoice.ofCall (call : GateCall α) : Except (GateError α) BitChoice :=
  let invalid (fault : ArgumentFault α) : Except (GateError α) BitChoice :=
    .error (.invalidArgument call.key (.declared "cbit") fault)
  match call.args.head? with
  | none => .ok .next
  | some x =>
    if ¬ Scalar.isFinite x ∨ ¬ (x - Scalar.floor x == 0) then invalid (.notWhole x)
    else if x < 0 then .ok .unrecorded
    else if Scalar.ofNat maxBit < x then invalid (.outOfRange x)
    else .ok (.given (UInt32.ofNat (Scalar.toNat x)))

/-- The bit for a measurement on a ledger. -/
def BitChoice.bit? (c : BitChoice) (l : Ledger α) : Option UInt32 :=
  match c with
  | .next => some l.nextCbit
  | .given bit => some bit
  | .unrecorded => none

/-- The resolved parameters. -/
structure Pulse (α : Type) where
  duration : α
  amp : α
  frequency : α
  bias : α
  signal : String
  weight : String
  ringUpAmp : α
  ringUpTime : α
  edge : α
  /-- All parameters, as they are recorded. -/
  recorded : ParamValues α

/-- The parameters read one after the other; the amplitude counts without its sign. -/
def Pulse.ofParams (params : Params α) : Except (GateError α) (Pulse α) := do
  return {
    duration := ← params.float "duration"
    amp := Scalar.abs (← params.float "amp")
    frequency := ← params.float "frequency"
    bias := ← params.float "bias"
    signal := ← params.str "signal"
    weight := ← params.str "weight"
    ringUpAmp := ← params.float "ring_up_amp"
    ringUpTime := ← params.float "ring_up_time"
    edge := ← params.float "ring_edge_time"
    recorded := params.values }

/-- The pulse of a measurement that starts at `t`: it rises to the ring-up amplitude, goes over to the
amplitude proper and falls at the end. -/
def Pulse.waveform (p : Pulse α) (t : α) : Waveform α :=
  let s := Waveform.step p.edge .cos
  let envelope :=
    p.ringUpAmp * (s >>> t) - (p.ringUpAmp - p.amp) * (s >>> (t + p.ringUpTime)) -
      p.amp * (s >>> (t + p.duration))
  envelope * Waveform.carrier p.frequency 0

/-- The slot of the result. -/
def Pulse.task (p : Pulse α) (q : Qubit) (bit : UInt32) (t : α) : MeasurementTask α where
  qubit := q
  cbit := bit
  time := t
  signal := p.signal
  weight := p.weight
  params := p.recorded

/-- The pulse, the bias, the slot if one is wanted, and the cursor and frame after the measurement. -/
def play (p : Pulse α) (choice : BitChoice) (q : Qubit) (l : Ledger α) : List (Instruction α) :=
  let t := l.time q
  let slot :=
    match choice.bit? l with
    | some bit => [.setCbit (p.task q bit t)]
    | none => []
  [.addWaveform (.readout q) (p.waveform t), .setBias (.flux q) p.bias] ++ slot ++
    [.setTime q (t + p.duration), .setPhase q 0]

/-- **Measurement of a qubit.** -/
def procedure : Procedure α where
  signature := (Signature.qubits 1).optionalArg "cbit"
  reads := reads
  subcalls := []
  synthesize call params := do
    let q ← call.target 0
    let choice ← BitChoice.ofCall call
    let pulse ← Pulse.ofParams params
    return .defer (play pulse choice q)

end Readout

end PulseControl
