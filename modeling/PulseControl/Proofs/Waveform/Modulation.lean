import Mathlib.Analysis.SpecialFunctions.Trigonometric.Basic
import PulseControl.Proofs.RealScalar
import PulseControl.Proofs.Waveform.Windows

/-!
# Modulation is a rotation

A carrier of any frequency is a cosine, also where it is folded into a constant, and a carrier that lags
by a quarter turn is a sine. So modulation turns the values of a pair by the angle of the carrier at the
time.

* `PulseControl.Waveform.sample_carrier` – the values of a carrier;
* `PulseControl.IqPair.sample_modulate` – the pair turned by the angle;
* `PulseControl.IqPair.sample_modulate_mix` – an envelope on two carriers, whose angles add up.
-/

namespace PulseControl

open Real

namespace Waveform

/-- **A carrier is a cosine**, at every frequency. -/
theorem sample_carrier (frequency phase t : ℝ) :
    (carrier frequency phase).sample t = cos (2 * π * frequency * t + phase) := by
  rw [carrier]
  split
  · next h =>
    have hzero : frequency = 0 := (beq_iff _ _).mp h
    rw [sample_constant, scalar_cos_real, hzero, mul_zero, zero_mul, zero_add]
  · have hturns : (quarterTurns 0 : ℝ) = 0 := by
      rw [quarterTurns, Scalar.ofNat_eq, Nat.cast_zero, zero_mul, zero_div]
    rw [sample, Primitive.value, Scalar.power_eq, pow_zero, one_mul, scalar_cos_real, hturns, add_zero,
      two_eq, scalar_pi_real]

/-- A carrier that lags by a quarter turn is a sine. -/
theorem sample_lagging_carrier (frequency phase t : ℝ) :
    (carrier frequency (phase - Scalar.pi / 2.0)).sample t =
      sin (2 * π * frequency * t + phase) := by
  rw [sample_carrier, two_eq, scalar_pi_real, ← add_sub_assoc, cos_sub_pi_div_two]

/-- A raised cosine has height one in its middle. -/
theorem sample_cosPulse_zero {width : ℝ} (h : 0 < width) : (cosPulse width).sample 0 = 1 := by
  have hinside : ¬(width ≤ 0 ∨ width / 2 < Scalar.abs (0 : ℝ)) := by
    have habs : Scalar.abs (0 : ℝ) = 0 := abs_zero
    rw [habs]
    exact fun hor => hor.elim h.not_ge fun hlt => by linarith
  rw [cosPulse, sample, Primitive.value, two_eq, if_neg hinside, if_pos rfl, mul_zero,
    scalar_cos_real, cos_zero]
  norm_num

end Waveform

namespace IqPair

open Waveform

/-- **Modulation turns a pair** by the angle of the carrier. -/
theorem sample_modulate (p : IqPair ℝ) (phase frequency t : ℝ) :
    (p.modulate phase frequency).sample t =
      (p.i.sample t * cos (2 * π * frequency * t + phase) -
          p.q.sample t * sin (2 * π * frequency * t + phase),
        p.i.sample t * sin (2 * π * frequency * t + phase) +
          p.q.sample t * cos (2 * π * frequency * t + phase)) := by
  rw [IqPair.sample, modulate, sample_sub, sample_add, sample_mul, sample_mul, sample_mul, sample_mul,
    sample_carrier, sample_lagging_carrier]

/-- A delayed pair has the values of the earlier time. -/
theorem sample_pair_delay (p : IqPair ℝ) (dt t : ℝ) : (p.delay dt).sample t = p.sample (t - dt) := by
  rw [IqPair.sample, IqPair.sample, delay, sample_delay, sample_delay]

/-- **An envelope on two carriers**, the second after a delay, is the envelope on a carrier whose angle
is the sum of both. -/
theorem sample_modulate_mix (w : Waveform ℝ) (phase delta dt frame frequency t : ℝ) :
    ((((⟨w, .zero⟩ : IqPair ℝ).mix ⟨phase, delta, none⟩).delay dt).modulate frame frequency).i.sample t =
      w.sample (t - dt) *
        cos (2 * π * frequency * t + frame + (2 * π * delta * (t - dt) + phase)) := by
  obtain ⟨p, hp⟩ : ∃ p, p = (⟨w, .zero⟩ : IqPair ℝ).mix ⟨phase, delta, none⟩ := ⟨_, rfl⟩
  have hmixed : p.sample (t - dt) =
      (w.sample (t - dt) * cos (2 * π * delta * (t - dt) + phase),
        w.sample (t - dt) * sin (2 * π * delta * (t - dt) + phase)) := by
    rw [hp, mix, sample_modulate, sample_zero, zero_mul, zero_mul, sub_zero, add_zero]
  have hplaced := hmixed
  rw [← sample_pair_delay] at hplaced
  obtain ⟨hi, hq⟩ := Prod.mk.inj hplaced
  have hturned := congrArg Prod.fst (sample_modulate (p.delay dt) frame frequency t)
  rw [hi, hq] at hturned
  rw [← hp, cos_add, mul_sub]
  exact hturned.trans (by ring)

end IqPair

end PulseControl
