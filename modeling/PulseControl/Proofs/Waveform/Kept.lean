import PulseControl.Waveform.Mixing

/-!
# Properties that the operators keep

Pulses are made of steps and envelopes by the operators on waveforms, and a carrier only ever multiplies what
has been made of them. So a property of steps and envelopes that the operators keep is a property of every
pulse, and one does not have to take the pulses apart again for each property.

* `PulseControl.Waveform.Kept` – a property that the operators keep;
* `PulseControl.Waveform.Kept.square`, `PulseControl.Waveform.Kept.foldl` – flat tops and sums have it;
* `PulseControl.Waveform.Kept.modulate`, `PulseControl.Waveform.Kept.mix` – so do both components of a pair
  that is modulated or mixed, if they had it before.
-/

namespace PulseControl.Waveform

variable {α : Type} [Scalar α]

/-- **A property that the operators keep**, and that steps and envelopes have. It need not be one of
carriers. -/
structure Kept (P : Waveform α → Prop) : Prop where
  zero : P .zero
  step : ∀ edge shape, P (step edge shape)
  envelope : ∀ shape width, P (envelope shape width)
  add : ∀ {v w}, P v → P w → P (v + w)
  sub : ∀ {v w}, P v → P w → P (v - w)
  factor : ∀ {w}, P w → ∀ k : α, P (k * w)
  delay : ∀ {w}, P w → ∀ dt : α, P (w >>> dt)
  derivative : ∀ {w}, P w → P w.derivative
  mul_carrier : ∀ {w}, P w → ∀ frequency phase, P (w * carrier frequency phase)

namespace Kept

variable {P : Waveform α → Prop}

theorem square (h : Kept P) (width edge : α) (shape : EdgeShape) : P (square width edge shape) :=
  h.sub (h.delay (h.step edge shape) _) (h.delay (h.step edge shape) _)

/-- Waveforms that are added one by one. -/
theorem foldl (h : Kept P) {ws : List (Waveform α)} (hws : ∀ w ∈ ws, P w) :
    P (ws.foldl (· + ·) .zero) :=
  List.foldlRecOn ws _ h.zero fun _ hacc w hw => h.add hacc (hws w hw)

variable {p : IqPair α}

theorem modulate (h : Kept P) (hi : P p.i) (hq : P p.q) (phase frequency : α) :
    P (p.modulate phase frequency).i ∧ P (p.modulate phase frequency).q :=
  ⟨h.sub (h.mul_carrier hi _ _) (h.mul_carrier hq _ _), h.add (h.mul_carrier hi _ _) (h.mul_carrier hq _ _)⟩

/-- **Mixing**, with a correction or without one. -/
theorem mix (h : Kept P) (hi : P p.i) (hq : P p.q) (options : Mixing α) :
    P (p.mix options).i ∧ P (p.mix options).q := by
  have hcorrected : ∀ s, P (p.withDrag s).i ∧ P (p.withDrag s).q := fun s =>
    ⟨h.add hi (h.factor (h.derivative hq) s), h.sub hq (h.factor (h.derivative hi) s)⟩
  rw [IqPair.mix]
  split
  · split
    · exact h.modulate hi hq _ _
    · exact h.modulate (hcorrected _).1 (hcorrected _).2 _ _
  · exact h.modulate hi hq _ _

end Kept

end PulseControl.Waveform
