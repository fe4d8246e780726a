import PulseControl.Lowering.Machine
import PulseControl.Waveform.Sampling

/-!
# Schedules

A schedule takes instructions in and keeps three records of them: the ledger, the waveform that every
channel has accumulated, and the log of the instructions. A call is lowered completely before any of its
instructions is applied, so a call that fails leaves no trace.

* `PulseControl.Schedule.apply`, `PulseControl.Schedule.run`, `PulseControl.Schedule.runAll`;
* `PulseControl.Buffers.render` – every channel sampled over its support.
-/

namespace PulseControl

/-- The waveform accumulated on every channel. -/
abbrev Buffers (α : Type) := Std.ExtTreeMap Channel (Waveform α)

/-- The samples of a channel. -/
structure RenderedChannel (α : Type) where
  /-- The time of the first sample. -/
  start : α
  samples : List α

namespace Buffers

variable {α : Type} [Scalar α]

/-- The buffers with a pulse on top of what a channel plays. -/
def add (b : Buffers α) (channel : Channel) (waveform : Waveform α) : Buffers α :=
  b.insert channel ((b[channel]?).getD .zero + waveform)

/-- The window over which a waveform with the given bounds is sampled: where it has no bound it is
clipped to start at 0 and to stop at `finish`. -/
def window {β : Type} [ExtendedLine α β] (i : Interval β) (finish : α) : α × α :=
  let start := (ExtendedLine.finite? i.lower).getD 0
  (start, (ExtendedLine.finite? i.upper).getD (Scalar.max finish start))

/-- The samples of a channel; nothing if its waveform is zero everywhere. -/
def renderChannel {β : Type} [ExtendedLine α β] (rate finish : α) (waveform : Waveform α) :
    Except (GateError α) (Option (RenderedChannel α)) :=
  match waveform.support with
  | none => .ok none
  | some i =>
    let (start, stop) := window i finish
    match waveform.sampleRange start stop rate with
    | .ok samples => .ok (some ⟨start, samples⟩)
    | .error e => .error (.wave e)

/-- **Rendering** at a sample rate: the channels that play anything, in order. -/
def render {β : Type} [ExtendedLine α β] (b : Buffers α) (rate finish : α) :
    Except (GateError α) (List (Channel × RenderedChannel α)) := do
  let rendered ← b.toList.mapM fun entry => do
    return (← renderChannel rate finish entry.2).map fun samples => (entry.1, samples)
  return rendered.filterMap id

end Buffers

/-- The records of applied instructions. -/
structure Schedule (α : Type) where
  ledger : Ledger α
  buffers : Buffers α
  /-- Every applied instruction, in order. -/
  log : List (Instruction α)

namespace Schedule

variable {α : Type}

/-- A schedule that starts from a state. -/
def ofLedger (ledger : Ledger α) : Schedule α := ⟨ledger, ∅, []⟩

variable [Scalar α]

/-- The schedule after one instruction. -/
def apply (s : Schedule α) (i : Instruction α) : Schedule α :=
  match i with
  | .addWaveform channel waveform =>
    { s with buffers := Buffers.add s.buffers channel waveform, log := s.log ++ [i] }
  | .setState _ => { s with ledger := s.ledger.apply i, log := s.log ++ [i] }
  | .expand _ => { s with log := s.log ++ [i] }

/-- The schedule after instructions one after the other. -/
def applyAll (s : Schedule α) (is : List (Instruction α)) : Schedule α := is.foldl apply s

/-- **A call run**: lowered completely, then applied. The outcome is the number of instructions or the
error, and the schedule afterwards. -/
def run (s : Schedule α) (l : Lowerer α) (call : GateCall α) :
    Except (GateError α) Nat × Schedule α :=
  match l.lower call s.ledger with
  | .error e => (.error e, s)
  | .ok lowering =>
    let outcome := lowering.drain
    match outcome.error? with
    | some e => (.error e, s)
    | none => (.ok outcome.instructions.length, s.applyAll outcome.instructions)

/-- **Calls run in order**, up to the first that fails. The outcome is the number of instructions or the
error, and the schedule after the calls that succeeded. -/
def runAll (s : Schedule α) (l : Lowerer α) :
    List (GateCall α) → Except (GateError α) Nat × Schedule α
  | [] => (.ok 0, s)
  | call :: calls =>
    match s.run l call with
    | (.error e, s') => (.error e, s')
    | (.ok n, s') =>
      let (count, final) := runAll s' l calls
      (count.map (n + ·), final)

end Schedule

end PulseControl
