/-!
# Scalars

Times, amplitudes, phases and arguments are scalars. The library is written once, over any type with
the operations of `Scalar`, and its arithmetic is never reassociated: the running program takes
64-bit floats, and a statement about exact arithmetic takes the same definitions at an ordered field.

* `PulseControl.Scalar` – the operations, with two notions of equality: `==` compares numbers, so
  `0 == -0` and no NaN equals itself, while `=` is identity;
* `PulseControl.Scalar.power` – natural powers by repeated squaring;
* `PulseControl.ExtendedLine` – the line of interval ends that goes with a scalar, which has a least
  and a greatest end even where the scalar has none.
-/

namespace PulseControl

/-- The operations on the numbers of a pulse program. `==` is comparison of numbers. -/
class Scalar (α : Type) extends Add α, Sub α, Neg α, Mul α, Div α, Zero α, One α,
    OfScientific α, LT α, LE α, BEq α where
  /-- Strict comparison is decidable. -/
  decLt : DecidableLT α
  /-- Comparison is decidable. -/
  decLe : DecidableLE α
  /-- Identity of scalars is decidable; it is finer than `==`. -/
  decEq : DecidableEq α
  /-- The larger of two numbers; an operand that is no number is ignored. -/
  max : α → α → α
  /-- The smaller of two numbers; an operand that is no number is ignored. -/
  min : α → α → α
  /-- The absolute value. -/
  abs : α → α
  /-- The cosine of an angle in radians. -/
  cos : α → α
  /-- The exponential function. -/
  exp : α → α
  /-- The ratio of a circle's circumference to its diameter. -/
  pi : α
  /-- The nearest whole number, a half going away from zero. -/
  round : α → α
  /-- The greatest whole number that is not larger. -/
  floor : α → α
  /-- The number as an element of the line, neither infinite nor undefined. -/
  isFinite : α → Bool
  /-- Whether the scalar is no number at all. -/
  isUndefined : α → Bool
  /-- The scalar nearest to a whole number. -/
  ofInt : Int → α
  /-- The whole part of a number that is not negative. -/
  toNat : α → Nat

namespace Scalar

variable {α : Type} [Scalar α]

instance : DecidableLT α := decLt

instance : DecidableLE α := decLe

/-- The scalar nearest to a natural number. -/
def ofNat (n : Nat) : α := ofInt (Int.ofNat n)

/-- One factor `a` for every bit of the exponent, squared from bit to bit. -/
def powerFrom (acc a : α) (n : Nat) : α :=
  if _h : n = 0 then acc
  else powerFrom (if n % 2 = 1 then acc * a else acc) (a * a) (n / 2)
termination_by n

/-- The `n`-th power, multiplied up from the lowest bit of the exponent. -/
def power (a : α) (n : Nat) : α := powerFrom 1 a n

end Scalar

/-- The ends `β` of intervals of scalars: every scalar is one, and there is a least and a greatest. -/
class ExtendedLine (α : Type) (β : outParam Type) where
  /-- The end that lies at a scalar. -/
  point : α → β
  /-- The least end. -/
  bottom : β
  /-- The greatest end. -/
  top : β
  /-- An end moved to the right. -/
  delay : β → α → β
  /-- The smaller of two ends. -/
  min : β → β → β
  /-- The larger of two ends. -/
  max : β → β → β
  /-- Whether the first end does not lie to the right of the second. -/
  le : β → β → Bool
  /-- The scalar at which an end lies, unless it is infinite. -/
  finite? : β → Option α

/-! ### The running program: 64-bit floats -/

namespace Float64

/-- The larger of two floats, the first of two that are equal. -/
def max (a b : Float) : Float := if a < b then b else if a.isNaN then b else a

/-- The smaller of two floats, the first of two that are equal. -/
def min (a b : Float) : Float := if b < a then b else if a.isNaN then b else a

/-- The nearest whole float, a half going away from zero. From 2 ^ 52 on every float is whole. -/
def round (x : Float) : Float :=
  let size := x.abs
  if size < 4503599627370496 then
    let whole := size.toUInt64.toFloat
    let nearest := if size - whole < 0.5 then whole else whole + 1
    -- a zero keeps its sign
    if x < 0 then -nearest else if x == 0 then x else nearest
  else x

end Float64

instance : Scalar Float where
  decLt := inferInstance
  decLe := inferInstance
  decEq := inferInstance
  max := Float64.max
  min := Float64.min
  abs := Float.abs
  cos := Float.cos
  exp := Float.exp
  pi := 3.141592653589793
  round := Float64.round
  floor := Float.floor
  isFinite := Float.isFinite
  isUndefined := Float.isNaN
  ofInt := Float.ofInt
  toNat x := x.toUInt64.toNat

instance : ExtendedLine Float Float where
  point x := x
  bottom := -1.0 / 0.0
  top := 1.0 / 0.0
  delay x dt := x + dt
  min := Float64.min
  max := Float64.max
  le a b := a ≤ b
  finite? x := if x.isFinite then some x else none

end PulseControl
