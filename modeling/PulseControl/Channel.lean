import PulseControl.Gate.Key

/-!
# Channels

A control line is addressed by its kind and by the qubits that it belongs to: one, or two for the line
of a coupler.

* `PulseControl.Channel` – the lines, with the order of listings and the text `Channel.text`.
-/

namespace PulseControl

/-- The kinds of control lines, in the order of listings. -/
inductive Port where
  /-- Microwave drive of a qubit. -/
  | drive
  /-- Flux bias of a qubit. -/
  | flux
  /-- Drive of a readout resonator. -/
  | readout
  /-- Flux of the coupler between two qubits. -/
  | couplerFlux
  deriving DecidableEq, Repr, Inhabited

namespace Port

/-- The name of the line on the hardware. -/
def name : Port → String
  | .drive => "RF"
  | .flux => "Z"
  | .readout => "readoutLine.RF"
  | .couplerFlux => "coupler.Z"

/-- The place of a kind in listings. -/
def index : Port → Nat
  | .drive => 0
  | .flux => 1
  | .readout => 2
  | .couplerFlux => 3

theorem index_injective {p q : Port} (h : p.index = q.index) : p = q := by
  cases p <;> cases q <;> first | rfl | exact absurd h (by decide)

end Port

/-- A control line; the qubits of a coupler line stand in the order of the call. -/
structure Channel where
  port : Port
  qubits : List Qubit
  deriving DecidableEq, Repr, Inhabited

namespace Channel

/-- The drive line of a qubit. -/
def drive (q : Qubit) : Channel := ⟨.drive, [q]⟩

/-- The flux line of a qubit. -/
def flux (q : Qubit) : Channel := ⟨.flux, [q]⟩

/-- The readout line of a qubit. -/
def readout (q : Qubit) : Channel := ⟨.readout, [q]⟩

/-- The flux line of the coupler between two qubits. -/
def couplerFlux (a b : Qubit) : Channel := ⟨.couplerFlux, [a, b]⟩

/-- Whether the line belongs to a qubit. -/
def involves (c : Channel) (q : Qubit) : Bool := c.qubits.contains q

/-- The text of a channel. -/
def text (c : Channel) : String := c.port.name ++ "(" ++ ",".intercalate c.qubits ++ ")"

/-- Channels are ordered by kind, then by the list of qubits. -/
instance : Ord Channel := ⟨compareLex (compareOn fun c => c.port.index) (compareOn qubits)⟩

instance : Std.TransOrd Channel :=
  inferInstanceAs (Std.TransCmp (compareLex (compareOn fun c => c.port.index) (compareOn qubits)))

instance : Std.LawfulEqOrd Channel where
  eq_of_compare {a b} h := by
    obtain ⟨h₁, h₂⟩ := Ordering.then_eq_eq.mp (show (compare a.port.index b.port.index).then
      (compare a.qubits b.qubits) = .eq from h)
    cases a
    cases b
    rw [Channel.mk.injEq]
    exact ⟨Port.index_injective (Std.LawfulEqOrd.eq_of_compare h₁),
      Std.LawfulEqOrd.eq_of_compare h₂⟩

end Channel

end PulseControl
