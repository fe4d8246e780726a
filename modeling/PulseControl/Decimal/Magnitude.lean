/-!
# Floats as exact fractions

A finite 64-bit float is a whole number times a power of two. This file takes the float apart and
keeps its magnitude as a fraction of natural numbers, from which every decimal text is computed
without rounding on the way.

* `PulseControl.Decimal.Parts.ofFloat` – sign, mantissa and power of two of a float;
* `PulseControl.Decimal.Fraction` – a magnitude as numerator over denominator;
* `PulseControl.Decimal.Fraction.roundDiv` – division to the nearest whole number, a tie going to the
  even neighbour (`PulseControl.Decimal.two_mul_roundDiv_le`,
  `PulseControl.Decimal.le_two_mul_roundDiv`).
-/

namespace PulseControl.Decimal

/-- What a 64-bit pattern stands for. -/
inductive Parts where
  /-- No number. -/
  | undefined
  /-- One of the two infinities. -/
  | infinite (negative : Bool)
  /-- The number `mantissa * 2 ^ power`, zero keeping its sign. -/
  | finite (negative : Bool) (mantissa : Nat) (power : Int)
  deriving DecidableEq, Repr

/-- The leading mantissa bit of a normal float, which is not stored: two to the 52nd power. -/
def hiddenBit : Nat := 0x10000000000000

/-- The parts of a float: 52 stored mantissa bits, 11 exponent bits and a sign. -/
def Parts.ofFloat (x : Float) : Parts :=
  let bits := x.toBits.toNat
  let negative := decide (bits / hiddenBit / 2048 = 1)
  let exponent : Nat := bits / hiddenBit % 2048
  let stored : Nat := bits % hiddenBit
  if exponent = 2047 then
    if stored = 0 then .infinite negative else .undefined
  else if exponent = 0 then .finite negative stored (-1074)
  else .finite negative (stored + hiddenBit) (exponent - 1075)

/-- The fraction `num / den`; the denominator is positive wherever the library builds one. -/
structure Fraction where
  num : Nat
  den : Nat
  deriving DecidableEq, Repr

namespace Fraction

/-- The number `mantissa * 2 ^ power`. -/
def ofBinary (mantissa : Nat) (power : Int) : Fraction :=
  ⟨mantissa <<< power.toNat, 1 <<< (-power).toNat⟩

/-- The fraction times a power of ten. -/
def shiftTen (r : Fraction) (power : Int) : Fraction :=
  ⟨r.num * Nat.pow 10 power.toNat, r.den * Nat.pow 10 (-power).toNat⟩

/-- Whether the first fraction is at most the second. -/
def le (r s : Fraction) : Bool := r.num * s.den ≤ s.num * r.den

/-- Whether the first fraction is less than the second. -/
def lt (r s : Fraction) : Bool := r.num * s.den < s.num * r.den

/-- The greatest whole number not above the fraction. -/
def floor (r : Fraction) : Nat := r.num / r.den

/-- The whole number nearest to the fraction, a tie going to the even neighbour. -/
def roundDiv (r : Fraction) : Nat :=
  let q := r.num / r.den
  let twice := 2 * (r.num % r.den)
  if twice < r.den then q
  else if r.den < twice then q + 1
  else if q % 2 = 0 then q else q + 1

end Fraction

/-- Rounding goes up by at most half a unit. -/
theorem two_mul_roundDiv_le (r : Fraction) :
    2 * (r.den * r.roundDiv) ≤ 2 * r.num + r.den := by
  have h := Nat.div_add_mod r.num r.den
  unfold Fraction.roundDiv
  generalize r.num / r.den = q at *
  generalize r.num % r.den = m at *
  simp only
  split
  · omega
  · split
    · rw [Nat.mul_add]; omega
    · split
      · omega
      · rw [Nat.mul_add]; omega

/-- Rounding goes down by at most half a unit. -/
theorem le_two_mul_roundDiv (r : Fraction) (h0 : 0 < r.den) :
    2 * r.num ≤ 2 * (r.den * r.roundDiv) + r.den := by
  have h := Nat.div_add_mod r.num r.den
  have hm := Nat.mod_lt r.num h0
  unfold Fraction.roundDiv
  generalize r.num / r.den = q at *
  generalize r.num % r.den = m at *
  simp only
  split
  · omega
  · split
    · rw [Nat.mul_add]; omega
    · split
      · omega
      · rw [Nat.mul_add]; omega

/-- The decimal digits of a natural number, the highest first. -/
def digitsOf (n : Nat) : List Char := Nat.toDigits 10 n

/-- The exponent of the leading decimal digit of a positive fraction: the greatest `e` with
`10 ^ e` at most the fraction. The digit counts of the two numbers leave two candidates. -/
def Fraction.leadExponent (r : Fraction) : Int :=
  let e : Int := (digitsOf r.num).length - (digitsOf r.den).length
  if (Fraction.shiftTen ⟨1, 1⟩ e).le r then e else e - 1

end PulseControl.Decimal
