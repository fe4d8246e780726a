import Mathlib.Analysis.SpecialFunctions.Trigonometric.Basic
import PulseControl.Proofs.ExactScalar

/-!
# Real arithmetic

The real numbers are exact scalars, with the cosine, the exponential function and the number `π` that
their names promise. What depends on these three, such as the rule for the derivative of a carrier or
the place of a pulse's axis, is said over the real numbers; everything else is said over any exact
scalars.
-/

namespace PulseControl

noncomputable instance : Scalar ℝ where
  beq a b := decide (a = b)
  decLt := inferInstance
  decLe := inferInstance
  decEq := inferInstance
  max := max
  min := min
  abs a := |a|
  cos := Real.cos
  exp := Real.exp
  pi := Real.pi
  round a := if 0 ≤ a then round a else -round (-a)
  floor a := ⌊a⌋
  isFinite _ := true
  isUndefined _ := false
  ofInt n := n
  toNat a := ⌊a⌋.toNat

theorem round_real_of_nonneg (a : ℝ) (h : 0 ≤ a) : Scalar.round a = Scalar.floor (a + 1 / 2) :=
  (if_pos h).trans (congrArg Int.cast (round_eq a))

theorem round_real_of_neg (a : ℝ) (h : a < 0) : Scalar.round a = -Scalar.floor (-a + 1 / 2) :=
  (if_neg (not_le.mpr h)).trans (congrArg (fun n : ℤ => -(n : ℝ)) (round_eq (-a)))

theorem toNat_real_eq (a : ℝ) (h : 0 ≤ a) (_ : a < 2 ^ 64) :
    (Scalar.toNat a : ℝ) = Scalar.floor a := by
  have hfloor : ((⌊a⌋.toNat : ℤ) : ℝ) = (⌊a⌋ : ℝ) := by
    rw [Int.toNat_of_nonneg (Int.floor_nonneg.mpr h)]
  exact hfloor

noncomputable instance : ExactScalar ℝ where
  beq_eq_true _ _ := decide_eq_true_iff
  isFinite_eq _ := rfl
  isUndefined_eq _ := rfl
  ofInt_eq _ := rfl
  ofScientific_eq _ _ _ := rfl
  abs_eq _ := rfl
  exists_floor a := ⟨⌊a⌋, rfl, Int.floor_le a, Int.lt_floor_add_one a⟩
  round_of_nonneg := round_real_of_nonneg
  round_of_neg := round_real_of_neg
  toNat_eq := toNat_real_eq

theorem scalar_cos_real (a : ℝ) : Scalar.cos a = Real.cos a := rfl

theorem scalar_pi_real : (Scalar.pi : ℝ) = Real.pi := rfl

end PulseControl
