import Mathlib.Analysis.SpecialFunctions.Trigonometric.Basic

/-!
# Points of the unit circle

An angle is written as the point of the unit circle at which it ends. Points multiply as their angles
add, so that a statement about angles, among them cosines and sines of half angles, becomes one about
products of points and their inverses.

* `PulseControl.phasor` – the point of an angle, with cosine and sine as its coordinates;
* `PulseControl.phasor_add`, `PulseControl.phasor_neg` – sums and negatives of angles;
* `PulseControl.cos_eq_phasor`, `PulseControl.sin_eq_phasor` – cosine and sine from points.
-/

namespace PulseControl

open Complex (I exp)
open scoped Real

/-- **The point of the unit circle** at an angle. -/
noncomputable def phasor (angle : ℝ) : ℂ := exp (I * angle)

theorem phasor_eq (angle : ℝ) : phasor angle = ⟨Real.cos angle, Real.sin angle⟩ := by
  rw [phasor, mul_comm]
  exact Complex.ext (Complex.exp_ofReal_mul_I_re angle) (Complex.exp_ofReal_mul_I_im angle)

theorem phasor_ne_zero (angle : ℝ) : phasor angle ≠ 0 := Complex.exp_ne_zero _

theorem phasor_add (a b : ℝ) : phasor (a + b) = phasor a * phasor b := by
  rw [phasor, Complex.ofReal_add, mul_add, Complex.exp_add, phasor, phasor]

theorem phasor_neg (a : ℝ) : phasor (-a) = (phasor a)⁻¹ := by
  rw [phasor, Complex.ofReal_neg, mul_neg, Complex.exp_neg, phasor]

theorem phasor_sub (a b : ℝ) : phasor (a - b) = phasor a * (phasor b)⁻¹ := by
  rw [sub_eq_add_neg, phasor_add, phasor_neg]

@[simp] theorem phasor_zero : phasor 0 = 1 := by
  rw [phasor, Complex.ofReal_zero, mul_zero, Complex.exp_zero]

@[simp] theorem phasor_pi : phasor π = -1 := by
  rw [phasor, mul_comm, Complex.exp_pi_mul_I]

@[simp] theorem phasor_pi_div_two : phasor (π / 2) = I := by
  rw [phasor_eq, Real.cos_pi_div_two, Real.sin_pi_div_two]
  rfl

theorem cos_eq_phasor (a : ℝ) : (Real.cos a : ℂ) = (phasor a + (phasor a)⁻¹) / 2 := by
  rw [Complex.ofReal_cos, Complex.cos, neg_mul, Complex.exp_neg, phasor, mul_comm I]

theorem sin_eq_phasor (a : ℝ) : (Real.sin a : ℂ) = ((phasor a)⁻¹ - phasor a) * I / 2 := by
  rw [Complex.ofReal_sin, Complex.sin, neg_mul, Complex.exp_neg, phasor, mul_comm I]

/-- The sum of two points lies on the line in the middle of their angles. -/
theorem one_add_phasor (a : ℝ) : 1 + phasor a = 2 * (phasor (a / 2) * Real.cos (a / 2)) := by
  have hsq : phasor a = phasor (a / 2) * phasor (a / 2) := by rw [← phasor_add, add_halves]
  rw [hsq, cos_eq_phasor]
  field_simp [phasor_ne_zero]
  ring

theorem one_sub_phasor (a : ℝ) : I * (1 - phasor a) = 2 * (phasor (a / 2) * Real.sin (a / 2)) := by
  have hsq : phasor a = phasor (a / 2) * phasor (a / 2) := by rw [← phasor_add, add_halves]
  rw [hsq, sin_eq_phasor]
  field_simp [phasor_ne_zero]

end PulseControl
