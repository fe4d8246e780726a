import PulseControl.Waveform.Calculus

/-!
# Mixing a baseband onto a carrier

A drive pulse has an in-phase and a quadrature component. Modulation turns the pair by the angle of
the carrier; the DRAG correction first adds to each component a multiple of the derivative of the
other.

* `PulseControl.IqPair.modulate` – the rotation by the carrier's angle;
* `PulseControl.IqPair.mix` – DRAG correction and modulation.
-/

namespace PulseControl

/-- The two components of a pulse. -/
structure IqPair (α : Type) where
  /-- The in-phase component, played on a single output. -/
  i : Waveform α
  /-- The quadrature component. -/
  q : Waveform α

/-- How a baseband pair is mixed. -/
structure Mixing (α : Type) where
  /-- The phase of the carrier. -/
  phase : α
  /-- The frequency of the carrier. -/
  frequency : α
  /-- The factor of the DRAG correction, if one is made. -/
  drag : Option α

namespace IqPair

variable {α : Type} [Scalar α]

/-- Both components at time `t`. -/
def sample (p : IqPair α) (t : α) : α × α := (p.i.sample t, p.q.sample t)

/-- Both components delayed. -/
def delay (p : IqPair α) (dt : α) : IqPair α := ⟨p.i >>> dt, p.q >>> dt⟩

/-- Both components scaled. -/
def scale (p : IqPair α) (k : α) : IqPair α := ⟨k * p.i, k * p.q⟩

/-- **Modulation**: the pair turned by the angle `θ` of the carrier, `i cos θ - q sin θ` and
`i sin θ + q cos θ`. -/
def modulate (p : IqPair α) (phase frequency : α) : IqPair α :=
  let cos := Waveform.carrier frequency phase
  let sin := Waveform.carrier frequency (phase - Scalar.pi / 2.0)
  ⟨p.i * cos - p.q * sin, p.i * sin + p.q * cos⟩

/-- The DRAG correction by a factor: `i + s dq/dt` and `q - s di/dt`. -/
def withDrag (p : IqPair α) (s : α) : IqPair α :=
  ⟨p.i + s * p.q.derivative, p.q - s * p.i.derivative⟩

/-- **Mixing**: the DRAG correction where a factor other than 0 is given, then modulation. -/
def mix (p : IqPair α) (options : Mixing α) : IqPair α :=
  let corrected :=
    match options.drag with
    | some s => if s == 0 then p else p.withDrag s
    | none => p
  corrected.modulate options.phase options.frequency

end IqPair

end PulseControl
