import PulseControl.Proofs.Phasor
import PulseControl.Proofs.Waveform.Modulation

/-!
# The baseband as a complex signal

The two components of a pulse are the real and the imaginary part of one complex function of time.
Read in this way, the four products of a modulation are a single one: the value of the pair is
multiplied by a point of the unit circle, whose angle is the angle of the carrier at the time. The
points of the circle multiply as their angles add, and so do modulations that follow each other.

The folding of carriers and of products leaves no trace in a value. At frequency 0 both carriers are
constants, and one of them may vanish; the point of the circle then stands still.

* `PulseControl.IqPair.value` – the pair as a complex number at a time;
* `PulseControl.IqPair.baseband` – the value of the pair with its DRAG correction;
* `PulseControl.IqPair.value_modulate` – modulation is a product with a point of the circle;
* `PulseControl.IqPair.mix_turns_baseband` – mixing turns the baseband, and angles add up.
-/

namespace PulseControl

open scoped Real

namespace IqPair

/-- **The value of a pair**: the in-phase component is its real part, the quadrature its imaginary
part. -/
noncomputable def value (p : IqPair ℝ) (t : ℝ) : ℂ := ⟨p.i.sample t, p.q.sample t⟩

/-- **The baseband** at a time: the value of the pair, and with a DRAG factor `s` other than 0 that of
`i + s dq/dt` and `q - s di/dt`, with the symbolic derivatives. -/
noncomputable def baseband (p : IqPair ℝ) : Option ℝ → ℝ → ℂ
  | none, t => p.value t
  | some s, t =>
    if s = 0 then p.value t
    else ⟨p.i.sample t + s * p.q.derivative.sample t, p.q.sample t - s * p.i.derivative.sample t⟩

/-- Two carriers on top of each other: the phases add up, and so do the frequencies. -/
theorem carrier_angle_add (phase frequency phase' frequency' t : ℝ) :
    2 * π * frequency * t + phase + (2 * π * frequency' * t + phase') =
      2 * π * (frequency + frequency') * t + (phase + phase') := by
  ring

/-- **Modulation is a product** with the point of the circle at which the carrier has arrived. -/
theorem value_modulate (p : IqPair ℝ) (phase frequency t : ℝ) :
    (p.modulate phase frequency).value t = p.value t * phasor (2 * π * frequency * t + phase) := by
  obtain ⟨hi, hq⟩ := Prod.mk.inj (p.sample_modulate phase frequency t)
  rw [phasor_eq]
  refine Complex.ext ?_ ?_
  · rw [value, hi, Complex.mul_re, value]
  · rw [value, hq, Complex.mul_im, value]

theorem value_withDrag (p : IqPair ℝ) (s t : ℝ) :
    (p.withDrag s).value t =
      ⟨p.i.sample t + s * p.q.derivative.sample t, p.q.sample t - s * p.i.derivative.sample t⟩ := by
  rw [value, withDrag, Waveform.sample_add, Waveform.sample_sub, Waveform.sample_factor,
    Waveform.sample_factor]

/-- Mixing modulates the baseband. -/
theorem value_mix (p : IqPair ℝ) (options : Mixing ℝ) (t : ℝ) :
    (p.mix options).value t =
      p.baseband options.drag t * phasor (2 * π * options.frequency * t + options.phase) := by
  obtain ⟨phase, frequency, drag⟩ := options
  cases drag with
  | none => exact p.value_modulate phase frequency t
  | some s =>
    by_cases hs : s = 0
    · have hbeq : (s == 0) = true := (Waveform.beq_iff s 0).mpr hs
      simp only [mix, baseband, if_pos hbeq, if_pos hs, value_modulate]
    · have hbeq : ¬(s == 0) = true := fun h => hs ((Waveform.beq_iff s 0).mp h)
      simp only [mix, baseband, if_neg hbeq, if_neg hs, value_modulate, value_withDrag]

/-- **Mixing turns the baseband** by the angle of the carrier, at every frequency, at every time and
for every DRAG factor, and a further modulation adds its phase and its frequency to those before. -/
theorem mix_turns_baseband (p : IqPair ℝ) (options : Mixing ℝ) (phase frequency t : ℝ) :
    (p.mix options).value t =
        p.baseband options.drag t * phasor (2 * π * options.frequency * t + options.phase) ∧
      (p.modulate phase frequency).value t =
        p.value t * phasor (2 * π * frequency * t + phase) ∧
      ((p.mix options).modulate phase frequency).value t =
        (p.mix ⟨options.phase + phase, options.frequency + frequency, options.drag⟩).value t ∧
      ∀ phase' frequency' : ℝ,
        ((p.modulate phase frequency).modulate phase' frequency').value t =
          (p.modulate (phase + phase') (frequency + frequency')).value t := by
  refine ⟨p.value_mix options t, p.value_modulate phase frequency t, ?_, fun phase' frequency' => ?_⟩
  · rw [value_modulate, value_mix, value_mix, mul_assoc, ← phasor_add, carrier_angle_add]
  · rw [value_modulate, value_modulate, value_modulate, mul_assoc, ← phasor_add, carrier_angle_add]

end IqPair

end PulseControl
