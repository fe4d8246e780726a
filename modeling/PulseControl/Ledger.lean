import PulseControl.Instruction

/-!
# The ledger

The ledger is the state of a pulse program: for every qubit a time cursor and the phase of its frame,
for every channel a bias, and the slots of the measurements by classical bit. A cursor or phase that
was never set is 0. Two ledgers are equal when they record the same.

* `PulseControl.Ledger.apply` – the effect of an instruction;
* `PulseControl.Ledger.maxTime`, `PulseControl.Ledger.endTime` – the latest cursor;
* `PulseControl.Ledger.nextCbit` – the bit for the next measurement.
-/

namespace PulseControl

/-- The state of a pulse program. -/
structure Ledger (α : Type) where
  times : Std.ExtTreeMap Qubit α
  phases : Std.ExtTreeMap Qubit α
  biases : Std.ExtTreeMap Channel α
  measures : Std.ExtTreeMap UInt32 (MeasurementTask α)

namespace Ledger

variable {α : Type}

instance : EmptyCollection (Ledger α) := ⟨⟨∅, ∅, ∅, ∅⟩⟩
instance : Inhabited (Ledger α) := ⟨∅⟩

/-- The ledger with the cursor of a qubit set. -/
def setTime (l : Ledger α) (q : Qubit) (value : α) : Ledger α :=
  { l with times := l.times.insert q value }

/-- The ledger with the phase of a qubit set. -/
def setPhase (l : Ledger α) (q : Qubit) (value : α) : Ledger α :=
  { l with phases := l.phases.insert q value }

/-- The bias of a channel, if one was set. -/
def bias? (l : Ledger α) (c : Channel) : Option α := l.biases[c]?

/-- The qubits with a cursor or a phase, sorted by name. -/
def qubits (l : Ledger α) : List Qubit :=
  (l.phases.foldl (fun known q _ => known.insert q ()) (l.times.map fun _ _ => ())).keys

/-- The next classical bit: one after the greatest used, or the first. Gaps are not filled, and the
greatest bit of all is its own successor. -/
def nextCbit (l : Ledger α) : UInt32 :=
  match l.measures.maxKey? with
  | none => 0
  | some bit => if bit = UInt32.ofNat (UInt32.size - 1) then bit else bit + 1

/-- **The effect of an instruction**. Pulses and markers leave the ledger as it is. -/
def apply (l : Ledger α) : Instruction α → Ledger α
  | .setState (.time q value) => { l with times := l.times.insert q value }
  | .setState (.phase q value) => { l with phases := l.phases.insert q value }
  | .setState (.bias c value) => { l with biases := l.biases.insert c value }
  | .setState (.cbit task) => { l with measures := l.measures.insert task.cbit task }
  | .addWaveform .. | .expand .. => l

/-- The effect of instructions one after the other. -/
def applyAll (l : Ledger α) (is : List (Instruction α)) : Ledger α := is.foldl apply l

@[simp] theorem applyAll_nil (l : Ledger α) : l.applyAll [] = l := rfl

@[simp] theorem applyAll_cons (l : Ledger α) (i : Instruction α) (is : List (Instruction α)) :
    l.applyAll (i :: is) = (l.apply i).applyAll is := rfl

theorem applyAll_append (l : Ledger α) (is js : List (Instruction α)) :
    l.applyAll (is ++ js) = (l.applyAll is).applyAll js :=
  List.foldl_append

variable [Scalar α]

/-- The time cursor of a qubit. -/
def time (l : Ledger α) (q : Qubit) : α := l.times[q]?.getD 0

/-- The phase of the frame of a qubit. -/
def phase (l : Ledger α) (q : Qubit) : α := l.phases[q]?.getD 0

/-- The latest cursor among some qubits, and at least 0. -/
def maxTime (l : Ledger α) (qs : List Qubit) : α :=
  qs.foldl (fun latest q => Scalar.max latest (l.time q)) 0

/-- The latest cursor of all, and at least 0. -/
def endTime (l : Ledger α) : α := l.times.foldl (fun latest _ t => Scalar.max latest t) 0

end Ledger

end PulseControl
