import Mathlib.Data.Complex.BigOperators
import Mathlib.LinearAlgebra.Matrix.Kronecker
import PulseControl.Proofs.Phasor

/-!
# The matrices that gates are named after

A rotation of a qubit about an axis in the equatorial plane, a phase and a controlled phase are what the
gates of the library are made of. Here are their matrices and those of the gates that are composed of
them, with the identities between the two. Cosines and sines of half angles are written with points of
the unit circle, and what remains of an identity is an equation between products of such points.

* `PulseControl.Matrices.rotation`, `PulseControl.Matrices.phase`,
  `PulseControl.Matrices.controlledPhase` – the matrices of the parts;
* `PulseControl.Matrices.general`, `PulseControl.Matrices.hadamard`,
  `PulseControl.Matrices.controlledFlip`, `PulseControl.Matrices.about` – those of the whole;
* `PulseControl.Matrices.quarter_turns_eq_general` – two quarter turns and a phase make any rotation;
* `PulseControl.Matrices.rotation_mul_phase` – a phase moves past a rotation and turns its axis.
-/

namespace PulseControl.Matrices

open Complex (I)
open Matrix
open scoped Real Kronecker

/-- The matrix of a gate on one qubit. -/
abbrev Single := Matrix (Fin 2) (Fin 2) ℂ

/-- The matrix of a gate on two qubits; the states are pairs of bits. -/
abbrev Double := Matrix (Fin 2 × Fin 2) (Fin 2 × Fin 2) ℂ

/-! ### The parts -/

/-- **The rotation** by the angle `t` about the axis at the angle `f` in the equatorial plane. -/
noncomputable def rotation (t f : ℝ) : Single :=
  !![(Real.cos (t / 2) : ℂ), -I * phasor (-f) * Real.sin (t / 2);
    -I * phasor f * Real.sin (t / 2), Real.cos (t / 2)]

/-- **The phase** `a` of the second state. -/
noncomputable def phase (a : ℝ) : Single := diagonal ![1, phasor a]

/-- **The controlled phase**: the state in which both bits are 1 changes its sign. -/
def controlledPhase : Double := diagonal fun s => if s = (1, 1) then -1 else 1

/-! ### The whole -/

/-- **The general rotation** by three angles. -/
noncomputable def general (theta phi lambda : ℝ) : Single :=
  !![(Real.cos (theta / 2) : ℂ), -phasor lambda * Real.sin (theta / 2);
    phasor phi * Real.sin (theta / 2), phasor (phi + lambda) * Real.cos (theta / 2)]

/-- **The Hadamard matrix.** -/
noncomputable def hadamard : Single := ((√2 : ℝ) : ℂ)⁻¹ • !![1, 1; 1, -1]

/-- The flip of a bit, which is the half turn about the x axis up to a phase. -/
def pauliX : Single := !![0, 1; 1, 0]

/-- The half turn about the y axis up to a phase. -/
def pauliY : Single := !![0, -I; I, 0]

/-- A gate on the second bit that is applied where the first one is 1. -/
def controlled (m : Single) : Double := !![1, 0; 0, 0] ⊗ₖ 1 + !![0, 0; 0, 1] ⊗ₖ m

/-- **The rotation about an axis**, which is given by its half turn. -/
noncomputable def about (axis : Single) (angle : ℝ) : Single :=
  (Real.cos (angle / 2) : ℂ) • 1 - (I * Real.sin (angle / 2)) • axis

/-- **The rotations by fixed angles**: the name of the gate with its axis and its angle. -/
noncomputable def fixedTurns : List (String × Single × ℝ) :=
  [("X", pauliX, π), ("Y", pauliY, π), ("-X", -pauliX, π), ("-Y", -pauliY, π), ("X/2", pauliX, π / 2),
    ("Y/2", pauliY, π / 2), ("-X/2", -pauliX, π / 2), ("-Y/2", -pauliY, π / 2)]

/-! ### Identities -/

/-- **A phase moves past a rotation** and turns its axis back. -/
theorem rotation_mul_phase (t f a : ℝ) : rotation t f * phase a = phase a * rotation t (f - a) := by
  have ha := phasor_ne_zero a
  have hf := phasor_ne_zero f
  ext i j
  fin_cases i <;> fin_cases j <;>
    simp [rotation, phase, mul_apply, phasor_sub, phasor_neg] <;> field_simp

/-- The matrix of a quarter turn. -/
theorem rotation_quarter (f : ℝ) :
    rotation (π / 2) f =
      ((√2 / 2 : ℝ) : ℂ) • !![1, -I * phasor (-f); -I * phasor f, 1] := by
  have hquarter : (π / 2 / 2 : ℝ) = π / 4 := by ring
  rw [rotation, hquarter, Real.cos_pi_div_four, Real.sin_pi_div_four]
  ext i j
  fin_cases i <;> fin_cases j <;> simp [mul_comm]

/-- Two quarter turns, one after the other. -/
theorem quarter_mul_quarter (f g : ℝ) :
    rotation (π / 2) g * rotation (π / 2) f = (1 / 2 : ℂ) •
      !![1 - phasor (f - g), -I * (phasor (-f) + phasor (-g));
        -I * (phasor f + phasor g), 1 - phasor (g - f)] := by
  have hsq : ((√2 / 2 : ℝ) : ℂ) * ((√2 / 2 : ℝ) : ℂ) = 1 / 2 := by
    rw [← Complex.ofReal_mul, div_mul_div_comm, Real.mul_self_sqrt zero_le_two]
    norm_num
  have hdiagonal (z w : ℂ) : I * z * (I * w) = -(w * z) := by
    linear_combination z * w * Complex.I_mul_I
  rw [rotation_quarter, rotation_quarter, smul_mul_smul_comm, hsq, phasor_sub, phasor_sub,
    phasor_neg, phasor_neg]
  congr 1
  ext i j
  fin_cases i <;> fin_cases j <;> simp [mul_apply, hdiagonal] <;> ring

/-- **Two quarter turns and a phase make any rotation**, up to a phase of the whole. -/
theorem quarter_turns_eq_general (theta phi lambda : ℝ) :
    phase (theta + phi + lambda) * rotation (π / 2) (π - theta - lambda) *
        rotation (π / 2) (-lambda) =
      phasor (theta / 2) • general theta phi lambda := by
  have hphi := phasor_ne_zero phi
  have hlambda := phasor_ne_zero lambda
  have htheta := phasor_ne_zero theta
  have hproduct : phase (theta + phi + lambda) *
        (rotation (π / 2) (π - theta - lambda) * rotation (π / 2) (-lambda)) = (1 / 2 : ℂ) •
      !![1 + phasor theta, -(phasor lambda * (I * (1 - phasor theta)));
        phasor phi * (I * (1 - phasor theta)), phasor (phi + lambda) * (1 + phasor theta)] := by
    rw [quarter_mul_quarter]
    ext i j
    fin_cases i <;> fin_cases j <;>
      simp [phase, phasor_add, phasor_sub, phasor_neg] <;> field_simp <;> ring
  -- the sum and the difference are the cosine and the sine of half the angle, times its point
  rw [mul_assoc, hproduct, one_add_phasor, one_sub_phasor, general]
  ext i j
  fin_cases i <;> fin_cases j <;> simp <;> ring

/-- The general rotation that exchanges the axes x and z. -/
theorem general_hadamard : general (π / 2) 0 π = hadamard := by
  have hquarter : (π / 2 / 2 : ℝ) = π / 4 := by ring
  have hroot : ((√2 / 2 : ℝ) : ℂ) = ((√2 : ℝ) : ℂ)⁻¹ := by
    rw [Real.sqrt_div_self', one_div, Complex.ofReal_inv]
  rw [general, hadamard, hquarter, Real.cos_pi_div_four, Real.sin_pi_div_four, hroot]
  ext i j
  fin_cases i <;> fin_cases j <;> simp

theorem inv_sqrt_two_mul_self : ((√2 : ℝ) : ℂ)⁻¹ * ((√2 : ℝ) : ℂ)⁻¹ = 1 / 2 := by
  rw [← mul_inv, ← Complex.ofReal_mul, Real.mul_self_sqrt zero_le_two]
  norm_num

theorem hadamard_mul_hadamard : hadamard * hadamard = 1 := by
  rw [hadamard, smul_mul_smul_comm, inv_sqrt_two_mul_self]
  ext i j
  fin_cases i <;> fin_cases j <;> simp <;> norm_num

/-- The flip in the exchanged axes is the change of a sign. -/
theorem hadamard_sign_hadamard : hadamard * !![1, 0; 0, -1] * hadamard = pauliX := by
  rw [hadamard, smul_mul_assoc, smul_mul_smul_comm, inv_sqrt_two_mul_self, pauliX]
  ext i j
  fin_cases i <;> fin_cases j <;> simp <;> norm_num

theorem controlledPhase_eq : controlledPhase = controlled !![1, 0; 0, -1] := by
  ext ⟨i, j⟩ ⟨i', j'⟩
  fin_cases i <;> fin_cases j <;> fin_cases i' <;> fin_cases j' <;>
    simp [controlledPhase, controlled, diagonal]

/-- Gates on the second bit go into what is controlled, if they undo each other. -/
theorem controlled_conj {m n : Single} (h : m * m = 1) :
    (1 : Single) ⊗ₖ m * controlled n * (1 : Single) ⊗ₖ m = controlled (m * n * m) := by
  rw [controlled, mul_add, add_mul, ← mul_kronecker_mul, ← mul_kronecker_mul, ← mul_kronecker_mul,
    ← mul_kronecker_mul, one_mul, mul_one, mul_one, h, one_mul, mul_one, controlled]

/-- **Between two exchanges of the axes x and z the controlled phase is a controlled flip.** -/
theorem hadamard_controlledPhase_hadamard :
    (1 : Single) ⊗ₖ hadamard * controlledPhase * (1 : Single) ⊗ₖ hadamard = controlled pauliX := by
  rw [controlledPhase_eq, controlled_conj hadamard_mul_hadamard, hadamard_sign_hadamard]

/-- A rotation is one about an axis in the equatorial plane. -/
theorem rotation_eq_about (t f : ℝ) :
    rotation t f = about ((Real.cos f : ℂ) • pauliX + (Real.sin f : ℂ) • pauliY) t := by
  have hplus : phasor f = Real.cos f + Real.sin f * I := by
    rw [phasor_eq]
    exact Complex.mk_eq_add_mul_I _ _
  have hminus : phasor (-f) = Real.cos f - Real.sin f * I := by
    rw [phasor_eq, Real.cos_neg, Real.sin_neg, Complex.mk_eq_add_mul_I, Complex.ofReal_neg]
    ring
  rw [rotation, about, pauliX, pauliY, hplus, hminus]
  ext i j
  fin_cases i <;> fin_cases j <;> simp <;> ring

theorem rotation_zero (t : ℝ) : rotation t 0 = about pauliX t := by
  rw [rotation_eq_about, Real.cos_zero, Real.sin_zero]
  simp

theorem rotation_half_pi (t : ℝ) : rotation t (π / 2) = about pauliY t := by
  rw [rotation_eq_about, Real.cos_pi_div_two, Real.sin_pi_div_two]
  simp

theorem rotation_pi (t : ℝ) : rotation t π = about (-pauliX) t := by
  rw [rotation_eq_about, Real.cos_pi, Real.sin_pi]
  simp

theorem rotation_neg_half_pi (t : ℝ) : rotation t (-(π / 2)) = about (-pauliY) t := by
  rw [rotation_eq_about, Real.cos_neg, Real.sin_neg, Real.cos_pi_div_two, Real.sin_pi_div_two]
  simp

end PulseControl.Matrices
