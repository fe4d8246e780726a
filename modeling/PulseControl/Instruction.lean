import PulseControl.Channel
import PulseControl.Error
import PulseControl.Waveform.Calculus

/-!
# Instructions

Lowering turns a gate call into instructions: pulses on channels, assignments to the state, and markers
for gates that are expanded in place.

* `PulseControl.Instruction` – the instructions, with their texts;
* `PulseControl.Instruction.touches` – whether an instruction concerns a qubit.
-/

namespace PulseControl

/-- The slot of a measurement result. -/
structure MeasurementTask (α : Type) where
  /-- The measured qubit. -/
  qubit : Qubit
  /-- The classical bit. -/
  cbit : UInt32
  /-- When the readout pulse starts. -/
  time : α
  /-- The kind of signal that is asked for. -/
  signal : String
  /-- The integration weight, as an expression of the readout hardware. -/
  weight : String
  /-- The parameters of the measurement. -/
  params : ParamValues α

/-- An assignment to the state. -/
inductive StateUpdate (α : Type) where
  /-- The time cursor of a qubit. -/
  | time (qubit : Qubit) (value : α)
  /-- The phase of the frame of a qubit. -/
  | phase (qubit : Qubit) (value : α)
  /-- The static bias of a channel. -/
  | bias (channel : Channel) (value : α)
  /-- The slot of a measurement. -/
  | cbit (task : MeasurementTask α)

/-- One unit of lowered output. -/
inductive Instruction (α : Type) where
  /-- A pulse, in absolute time, on top of what a channel plays. -/
  | addWaveform (channel : Channel) (waveform : Waveform α)
  /-- An assignment to the state. -/
  | setState (update : StateUpdate α)
  /-- Another gate, in place. -/
  | expand (call : GateCall α)

/-- The name of the part of the state that an assignment sets. -/
def StateUpdate.attributeName {α : Type} : StateUpdate α → String
  | .time .. => "time"
  | .phase .. => "phase"
  | .bias .. => "bias"
  | .cbit .. => "cbit"

namespace Instruction

variable {α : Type}

/-- Sets the time cursor of a qubit. -/
def setTime (q : Qubit) (value : α) : Instruction α := .setState (.time q value)

/-- Sets the phase of the frame of a qubit. -/
def setPhase (q : Qubit) (value : α) : Instruction α := .setState (.phase q value)

/-- Sets the bias of a channel. -/
def setBias (c : Channel) (value : α) : Instruction α := .setState (.bias c value)

/-- Records the slot of a measurement. -/
def setCbit (task : MeasurementTask α) : Instruction α := .setState (.cbit task)

/-- Whether the instruction is a marker. -/
def isExpand : Instruction α → Bool
  | .expand _ => true
  | _ => false

/-- Whether the instruction concerns a qubit. -/
def touches : Instruction α → Qubit → Bool
  | .addWaveform channel _, q => channel.involves q
  | .setState (.time r _), q => r = q
  | .setState (.phase r _), q => r = q
  | .setState (.bias channel _), q => channel.involves q
  | .setState (.cbit task), q => task.qubit = q
  | .expand call, q => call.targets.contains q

/-- The name of what the instruction does. -/
def attributeName : Instruction α → String
  | .addWaveform .. => "add"
  | .setState update => update.attributeName
  | .expand .. => "expand"

/-- The text of an instruction. A pulse is shown with its window where that is bounded. -/
def text : Instruction Float → String
  | .addWaveform channel waveform =>
    let window :=
      match waveform.support with
      | some i =>
        if i.lower.isFinite && i.upper.isFinite then
          " [" ++ Decimal.scientific 3 i.lower ++ ", " ++ Decimal.scientific 3 i.upper ++ "]"
        else ""
      | none => ""
    "add " ++ channel.text ++ window
  | .setState (.time q value) => "set " ++ q ++ ".time = " ++ Decimal.scientific 3 value
  | .setState (.phase q value) => "set " ++ q ++ ".phase = " ++ Decimal.fixed 6 value
  | .setState (.bias channel value) =>
    "set " ++ channel.text ++ ".bias = " ++ Decimal.NumberStyle.plain.write value
  | .setState (.cbit task) =>
    "set cbit[" ++ toString task.cbit.toNat ++ "] = measure " ++ task.qubit ++ " (" ++
      task.signal ++ ")"
  | .expand call => "expand " ++ call.text

end Instruction

end PulseControl
