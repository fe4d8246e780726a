import PulseControl.Decimal.Magnitude

/-!
# Reading decimal texts

A numeral is an optional sign, digits with at most one point among or beside them, and an optional
exponent. Its value is the nearest float, and a numeral beyond the largest float reads as infinity.

* `PulseControl.Decimal.readNumeral?` – numerals alone;
* `PulseControl.Decimal.read?` – numerals and the words for infinity and for no number.
-/

namespace PulseControl.Decimal

/-- The value of a row of decimal digits. -/
def valueOf (ds : List Char) : Nat := ds.foldl (fun n c => 10 * n + (c.toNat - '0'.toNat)) 0

/-- A text without its sign, and whether the sign was a minus. -/
def splitSign : List Char → Bool × List Char
  | '-' :: cs => (true, cs)
  | '+' :: cs => (false, cs)
  | cs => (false, cs)

/-- The float nearest to `coefficient * 10 ^ power`. Numbers far outside the range of floats are not
expanded. -/
def nearest (coefficient : Nat) (power : Int) : Float :=
  let lead : Int := power + (digitsOf coefficient).length
  if coefficient = 0 then 0
  else if 310 < lead then 1.0 / 0.0
  else if lead < -330 then 0
  else Float.ofScientific coefficient (decide (power < 0)) power.natAbs

/-- The exponent of a numeral: nothing at all, or a mark, an optional sign and digits. -/
def readExponent? : List Char → Option Int
  | [] => some 0
  | c :: cs =>
    if c = 'e' ∨ c = 'E' then
      let (negative, ds) := splitSign cs
      if ds ≠ [] ∧ ds.all Char.isDigit then
        some (if negative then -(valueOf ds : Int) else valueOf ds)
      else none
    else none

/-- A numeral without sign. -/
def readUnsigned? (cs : List Char) : Option Float :=
  let whole := cs.takeWhile Char.isDigit
  let (places, rest) :=
    match cs.dropWhile Char.isDigit with
    | '.' :: r => (r.takeWhile Char.isDigit, r.dropWhile Char.isDigit)
    | r => ([], r)
  if whole = [] ∧ places = [] then none
  else (readExponent? rest).map fun e => nearest (valueOf (whole ++ places)) (e - places.length)

/-- A signed numeral. -/
def readNumeral? (s : String) : Option Float :=
  let (negative, cs) := splitSign s.toList
  (readUnsigned? cs).map fun x => if negative then -x else x

/-- A signed numeral, or a signed word for infinity or for no number, in letters of either case. -/
def read? (s : String) : Option Float :=
  let (negative, cs) := splitSign s.toList
  let word := String.ofList (cs.map Char.toLower)
  let magnitude :=
    if word = "inf" ∨ word = "infinity" then some (1.0 / 0.0)
    else if word = "nan" then some (0.0 / 0.0)
    else readUnsigned? cs
  magnitude.map fun x => if negative then -x else x

end PulseControl.Decimal
