import Mathlib.Algebra.Order.Field.Basic
import Mathlib.Data.Rat.Floor
import PulseControl.Scalar

/-!
# Exact arithmetic

The library is written over any type of scalars. Here the scalars are the elements of an ordered field,
and the operations are those of the field, without rounding, without infinities and without anything
that is no number. Nothing is said about the cosine, the exponential function and the ratio of a circle's
circumference to its diameter: a statement about exact scalars holds whatever they are.

* `PulseControl.ExactScalar` – scalars that are computed with exactly;
* the rational numbers, over which everything can be evaluated.
-/

namespace PulseControl

/-- **Scalars that are computed with exactly**: an ordered field whose sums, products, comparisons and
so on are the operations of `PulseControl.Scalar`. -/
class ExactScalar (α : Type) extends Field α, LinearOrder α, IsStrictOrderedRing α, Scalar α where
  /-- Numbers that compare equal are identical. -/
  beq_eq_true : ∀ a b : α, (a == b) = true ↔ a = b
  isFinite_eq : ∀ a : α, Scalar.isFinite a = true
  isUndefined_eq : ∀ a : α, Scalar.isUndefined a = false
  ofInt_eq : ∀ n : ℤ, (Scalar.ofInt n : α) = n
  ofScientific_eq : ∀ (mantissa : ℕ) (negative : Bool) (exponent : ℕ),
    @OfScientific.ofScientific α Scalar.toOfScientific mantissa negative exponent =
      ((OfScientific.ofScientific mantissa negative exponent : ℚ) : α)
  abs_eq : ∀ a : α, Scalar.abs a = |a|
  exists_floor : ∀ a : α, ∃ n : ℤ, Scalar.floor a = n ∧ n ≤ a ∧ a < n + 1
  round_of_nonneg : ∀ a : α, 0 ≤ a → Scalar.round a = Scalar.floor (a + 1 / 2)
  round_of_neg : ∀ a : α, a < 0 → Scalar.round a = -Scalar.floor (-a + 1 / 2)
  toNat_eq : ∀ a : α, 0 ≤ a → a < 2 ^ 64 → (Scalar.toNat a : α) = Scalar.floor a

/-- No literal is negative. -/
theorem ExactScalar.literal_nonneg {α : Type} [ExactScalar α] (mantissa : ℕ) (negative : Bool)
    (exponent : ℕ) :
    0 ≤ @OfScientific.ofScientific α Scalar.toOfScientific mantissa negative exponent := by
  have hrat : 0 ≤ Rat.ofScientific mantissa negative exponent := by
    rw [Rat.ofScientific_def, Rat.mkRat_eq_div]
    split <;> positivity
  rw [ExactScalar.ofScientific_eq]
  exact Rat.cast_nonneg.mpr hrat

namespace Scalar

variable {α : Type} [ExactScalar α]

theorem powerFrom_eq (acc a : α) (n : ℕ) : powerFrom acc a n = acc * a ^ n := by
  induction acc, a, n using powerFrom.induct with
  | case1 acc a => rw [powerFrom, dif_pos rfl, pow_zero, mul_one]
  | case2 acc a n hn ih =>
    have hhalves : a ^ n = a ^ (n % 2) * (a * a) ^ (n / 2) := by
      rw [← pow_two, ← pow_mul, ← pow_add, Nat.mod_add_div]
    simp only [dite_eq_ite] at ih
    rw [powerFrom, dif_neg hn, ih, hhalves]
    rcases Nat.mod_two_eq_zero_or_one n with h | h
    · rw [if_neg (by omega), h, pow_zero, one_mul]
    · rw [if_pos h, h, pow_one, mul_assoc]

theorem ofNat_eq (n : ℕ) : (ofNat n : α) = n :=
  (ExactScalar.ofInt_eq (Int.ofNat n)).trans (Int.cast_natCast n)

/-- Repeated squaring computes the power. -/
theorem power_eq (a : α) (n : ℕ) : power a n = a ^ n := by rw [power, powerFrom_eq, one_mul]

end Scalar

/-! ### The rational numbers -/

/-- The rational numbers as scalars. No rational function is a cosine, and a constant stands for it as
well as any other; the same holds for the exponential function. -/
instance : Scalar ℚ where
  decLt := inferInstance
  decLe := inferInstance
  decEq := inferInstance
  max := max
  min := min
  abs a := |a|
  cos _ := 1
  exp _ := 1
  pi := 355 / 113
  round a := if 0 ≤ a then ⌊a + 1 / 2⌋ else -⌊-a + 1 / 2⌋
  floor a := ⌊a⌋
  isFinite _ := true
  isUndefined _ := false
  ofInt n := n
  toNat a := ⌊a⌋.toNat

theorem toNat_rat_eq (a : ℚ) (h : 0 ≤ a) (_ : a < 2 ^ 64) :
    (Scalar.toNat a : ℚ) = Scalar.floor a := by
  have hfloor : ((⌊a⌋.toNat : ℤ) : ℚ) = (⌊a⌋ : ℚ) := by
    rw [Int.toNat_of_nonneg (Int.floor_nonneg.mpr h)]
  exact hfloor

instance : ExactScalar ℚ where
  beq_eq_true _ _ := beq_iff_eq
  isFinite_eq _ := rfl
  isUndefined_eq _ := rfl
  ofInt_eq _ := rfl
  ofScientific_eq _ _ _ := rfl
  abs_eq _ := rfl
  exists_floor a := ⟨⌊a⌋, rfl, Int.floor_le a, Int.lt_floor_add_one a⟩
  round_of_nonneg _ h := if_pos h
  round_of_neg _ h := if_neg (not_le.mpr h)
  toNat_eq := toNat_rat_eq

end PulseControl
