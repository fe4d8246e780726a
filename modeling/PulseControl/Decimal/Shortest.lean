import PulseControl.Decimal.Magnitude

/-!
# The fewest digits that read back

A decimal text reads back as a float when it lies in the interval of numbers that round to that
float. For one digit, two digits and so on up to seventeen the two decimals around the float are
tried; the first length at which one of them lies in the interval is the shortest there is, and of
two that do the nearer is taken.

* `PulseControl.Decimal.Digits` – a coefficient and a power of ten;
* `PulseControl.Decimal.RoundingInterval` – the numbers that round to a float;
* `PulseControl.Decimal.shortest` – the digits.
-/

namespace PulseControl.Decimal

/-- The number `coefficient * 10 ^ power`. -/
structure Digits where
  coefficient : Nat
  power : Int
  deriving DecidableEq, Repr

namespace Digits

/-- The digits as a fraction. -/
def toFraction (d : Digits) : Fraction := Fraction.shiftTen ⟨d.coefficient, 1⟩ d.power

/-- Moves zeros at the end of the coefficient into the power; `fuel` bounds their number. -/
def trimZeros : Nat → Digits → Digits
  | 0, d => d
  | fuel + 1, d =>
    if d.coefficient % 10 = 0 ∧ d.coefficient ≠ 0 then
      trimZeros fuel ⟨d.coefficient / 10, d.power + 1⟩
    else d

end Digits

/-- The numbers that round to one float: all between the two ends, which belong to it when the
mantissa is even. -/
structure RoundingInterval where
  lower : Fraction
  upper : Fraction
  closed : Bool
  deriving DecidableEq, Repr

namespace RoundingInterval

/-- The interval around `mantissa * 2 ^ power`. It reaches half way to both neighbours, and the lower
neighbour of a power of two is only half as far away. -/
def around (mantissa : Nat) (power : Int) : RoundingInterval where
  lower :=
    if mantissa = hiddenBit ∧ -1074 < power then .ofBinary (4 * mantissa - 1) (power - 2)
    else .ofBinary (4 * mantissa - 2) (power - 2)
  upper := .ofBinary (4 * mantissa + 2) (power - 2)
  closed := mantissa % 2 = 0

/-- Whether a decimal rounds to the float. -/
def contains (i : RoundingInterval) (d : Digits) : Bool :=
  let r := d.toFraction
  if i.closed then i.lower.le r && r.le i.upper else i.lower.lt r && r.lt i.upper

end RoundingInterval

/-- Which of two equally near decimals is taken. -/
inductive Tie where
  /-- The larger one. -/
  | up
  /-- The one with the even last digit. -/
  | even
  deriving DecidableEq, Repr

/-- The nearer of the two decimals with `count` digits around `r` that lie in the interval. -/
def candidate (tie : Tie) (i : RoundingInterval) (r : Fraction) (lead : Int) (count : Nat) :
    Option Digits :=
  let power : Int := lead + 1 - count
  let scaled := r.shiftTen (-power)
  let below : Digits := ⟨scaled.floor, power⟩
  let above : Digits := ⟨scaled.floor + 1, power⟩
  let twice := 2 * (scaled.num % scaled.den)
  match i.contains below, i.contains above with
  | true, true =>
    if twice < scaled.den then some below
    else if scaled.den < twice then some above
    else
      match tie with
      | .up => some above
      | .even => if scaled.floor % 2 = 0 then some below else some above
  | true, false => some below
  | false, true => some above
  | false, false => none

/-- **The shortest digits** of the positive number `mantissa * 2 ^ power`. Seventeen always suffice, so
the value after that many is never used. -/
def shortest (tie : Tie) (mantissa : Nat) (power : Int) : Digits :=
  let r := Fraction.ofBinary mantissa power
  let lead := r.leadExponent
  let i := RoundingInterval.around mantissa power
  let found := (List.range' 1 17).findSome? (candidate tie i r lead)
  (found.getD ⟨(r.shiftTen (16 - lead)).roundDiv, lead - 16⟩).trimZeros 17

/-- The digits that the search finds lie in the rounding interval: they read back. -/
theorem contains_of_candidate {tie : Tie} {i : RoundingInterval} {r : Fraction} {lead : Int}
    {count : Nat} {d : Digits} (h : candidate tie i r lead count = some d) :
    i.contains d = true := by
  simp only [candidate] at h
  split at h <;> rename_i hb ha
  · split at h
    · cases h; exact hb
    · split at h
      · cases h; exact ha
      · cases tie with
        | up => cases h; exact ha
        | even =>
          simp only at h
          split at h
          · cases h; exact hb
          · cases h; exact ha
  · cases h; exact hb
  · cases h; exact ha
  · cases h

end PulseControl.Decimal
