import PulseControl.Decimal.Reading
import PulseControl.Document.Node

/-!
# Numbers in JSON

A number without point and exponent is whole if it has 64 bits. Any other number becomes a float in few
steps: its leading digits, as many as fit 64 bits, are one whole number, which is then multiplied or
divided by one power of ten. The result can be off the nearest float in the last place.

* `PulseControl.Json.Numeral.parse?` – the parts of a number;
* `PulseControl.Json.Numeral.toNode` – its value.
-/

namespace PulseControl.Json

/-- The parts of a number. -/
structure Numeral where
  negative : Bool
  /-- The digits before the point. -/
  whole : List Char
  /-- The digits behind the point. -/
  places : List Char
  /-- Whether the exponent is negative, and its digits. -/
  exponent? : Option (Bool × List Char)
  deriving DecidableEq, Repr

namespace Numeral

/-- The greatest whole number of 64 bits. -/
def limit : Nat := UInt64.size - 1

/-- The greatest exponent that is not cut short. -/
def exponentLimit : Nat := 0x7fffffff

/-- Digits before the point: no zero leads other digits. -/
def isWhole (ds : List Char) : Bool := !ds.isEmpty && (ds.head? != some '0' || ds.length = 1)

/-- The exponent of a number: nothing at all, or a mark, an optional sign and digits. -/
def parseExponent? : List Char → Option (Option (Bool × List Char))
  | [] => some none
  | c :: cs =>
    if c = 'e' ∨ c = 'E' then
      let (negative, ds) := Decimal.splitSign cs
      if ds ≠ [] ∧ ds.all Char.isDigit then some (some (negative, ds)) else none
    else none

/-- The parts of a number, if the text is one. -/
def parse? (cs : List Char) : Option Numeral :=
  let (negative, cs) :=
    match cs with
    | '-' :: r => (true, r)
    | r => (false, r)
  let whole := cs.takeWhile Char.isDigit
  if !isWhole whole then none
  else
    match cs.dropWhile Char.isDigit with
    | '.' :: r =>
      let places := r.takeWhile Char.isDigit
      if places.isEmpty then none
      else (parseExponent? (r.dropWhile Char.isDigit)).map fun e => ⟨negative, whole, places, e⟩
    | r => (parseExponent? r).map fun e => ⟨negative, whole, [], e⟩

/-- The number that the digits spell behind `acc` as far as it stays within `bound`, and how many digits
are left over. -/
def absorb (bound : Nat) : List Char → Nat → Nat × Nat
  | [], acc => (acc, 0)
  | c :: cs, acc =>
    let next := 10 * acc + Decimal.valueOf [c]
    if bound < next then (acc, cs.length + 1) else absorb bound cs next

/-- A float divided by a power of ten. -/
def scaleDown (x : Float) (power : Nat) : Float :=
  if power ≤ 308 then x / Decimal.nearest 1 power
  else if x == 0 then x
  else scaleDown (x / 1e308) (power - 308)
termination_by power

/-- A whole number times a power of ten, unless that is out of range. -/
def scale? (significand : Nat) (power : Int) : Option Float :=
  let x := Float.ofNat significand
  if power < 0 then some (scaleDown x power.natAbs)
  else if power ≤ 308 then
    let y := x * Decimal.nearest 1 power
    if y.isInf then none else some y
  else if x == 0 then some x
  else none

/-- The float of a number, unless it is out of range. -/
def toFloat? (n : Numeral) : Option Float :=
  let (lead, excess) := absorb limit n.whole 0
  let (significand, ignored) := absorb limit n.places lead
  let power : Int := excess - (n.places.length - ignored : Nat)
  let magnitude :=
    match n.exponent? with
    | none => scale? significand power
    | some (down, ds) =>
      let (e, cut) := absorb exponentLimit ds 0
      if 0 < cut then if significand ≠ 0 ∧ !down then none else some 0
      else scale? significand (if down then power - e else power + e)
  magnitude.map fun x => if n.negative then -x else x

/-- **The value of a number**: whole where it is written so and has 64 bits, a float otherwise. Negative
zero is a float. -/
def toNode (n : Numeral) : Node :=
  let value := Decimal.valueOf n.whole
  if n.places.isEmpty && n.exponent?.isNone && value ≤ limit then
    if !n.negative then .int value
    else if value = 0 ∨ 0x8000000000000000 < value then .float (-(Float.ofNat value))
    else .int (-value)
  else (n.toFloat?).elim .invalid .float

end Numeral

end PulseControl.Json
