import PulseControl.Decimal.Shortest

/-!
# Decimal texts

Every format in which the program writes a number is one `NumberStyle`: where positional notation
ends, what a whole number carries behind it, how an exponent is signed, and the words for what is no
finite number. Three more functions write a number with a given count of places.

* `PulseControl.Decimal.NumberStyle.write` – the shortest digits in a style;
* `PulseControl.Decimal.fixed` – positional, with a given number of places;
* `PulseControl.Decimal.scientific` – one digit, a given number of places and an exponent.
-/

namespace PulseControl.Decimal

/-- The decisions of one format for numbers. -/
structure NumberStyle where
  /-- The least exponent of the leading digit that is written positionally, if there is one. -/
  positionalFrom : Option Int
  /-- The greatest exponent of the leading digit that is written positionally, if there is one. -/
  positionalTo : Option Int
  /-- What follows the digits of a whole number in positional notation. -/
  wholeSuffix : String
  /-- What precedes an exponent that is not negative. -/
  exponentPlus : String
  /-- Which of two equally near decimals is written. -/
  tie : Tie
  /-- The text of what is no number. -/
  undefinedText : String
  /-- The text of the positive infinity. -/
  infinityText : String
  /-- The text of the negative infinity. -/
  negativeInfinityText : String

/-- The sign of a number that is written with one only where it is negative. -/
def signText (negative : Bool) : String := if negative then "-" else ""

/-- A row of zeros. -/
def zeros (n : Nat) : String := String.ofList (List.replicate n '0')

/-- Positional notation of `coefficient * 10 ^ power`. -/
def positional (wholeSuffix : String) (d : Digits) : String :=
  let ds := digitsOf d.coefficient
  if 0 ≤ d.power then String.ofList ds ++ zeros d.power.toNat ++ wholeSuffix
  else
    let places := (-d.power).toNat
    if places < ds.length then
      String.ofList (ds.take (ds.length - places)) ++ "." ++
        String.ofList (ds.drop (ds.length - places))
    else "0." ++ zeros (places - ds.length) ++ String.ofList ds

/-- Exponent notation: one digit before the point, and no point behind a single digit. -/
def exponential (exponentPlus : String) (d : Digits) : String :=
  let ds := digitsOf d.coefficient
  let lead : Int := d.power + ds.length - 1
  let fraction := if ds.length ≤ 1 then "" else "." ++ String.ofList (ds.drop 1)
  String.ofList (ds.take 1) ++ fraction ++ "e" ++
    (if 0 ≤ lead then exponentPlus else "-") ++ String.ofList (digitsOf lead.natAbs)

namespace NumberStyle

/-- Whether a leading digit at this exponent is written positionally. -/
def isPositional (style : NumberStyle) (lead : Int) : Bool :=
  style.positionalFrom.all (· ≤ lead) && style.positionalTo.all (lead ≤ ·)

/-- The digits of a number that is not negative; zero counts as the digit 0 with exponent 0. -/
def digitsText (style : NumberStyle) (d : Digits) : String :=
  let lead : Int := if d.coefficient = 0 then 0 else d.power + (digitsOf d.coefficient).length - 1
  if style.isPositional lead then positional style.wholeSuffix d
  else exponential style.exponentPlus d

/-- **The text of a float**: the shortest digits that read back, laid out in the style. -/
def write (style : NumberStyle) (x : Float) : String :=
  match Parts.ofFloat x with
  | .undefined => style.undefinedText
  | .infinite false => style.infinityText
  | .infinite true => style.negativeInfinityText
  | .finite negative 0 _ => signText negative ++ style.digitsText ⟨0, 0⟩
  | .finite negative mantissa power =>
    signText negative ++ style.digitsText (shortest style.tie mantissa power)

/-- Numbers in messages and listings are written positionally, whatever their size. -/
def plain : NumberStyle where
  positionalFrom := none
  positionalTo := none
  wholeSuffix := ""
  exponentPlus := ""
  tie := .up
  undefinedText := "NaN"
  infinityText := "inf"
  negativeInfinityText := "-inf"

/-- Numbers inside a displayed table keep a point, and very small and very large ones take an
exponent. -/
def tableEntry : NumberStyle :=
  { plain with positionalFrom := some (-4), positionalTo := some 15, wholeSuffix := ".0" }

/-- Numbers in JSON texts. What is no finite number is null. -/
def json : NumberStyle where
  positionalFrom := some (-5)
  positionalTo := some 15
  wholeSuffix := ".0"
  exponentPlus := "+"
  tie := .even
  undefinedText := "null"
  infinityText := "null"
  negativeInfinityText := "null"

/-- Numbers in YAML texts. -/
def yaml : NumberStyle :=
  { json with
    exponentPlus := ""
    undefinedText := ".nan"
    infinityText := ".inf"
    negativeInfinityText := "-.inf" }

end NumberStyle

/-! ### A given number of places -/

/-- What is no finite number, in the words of messages. -/
def unplaced (x : Float) : String := NumberStyle.plain.write x

/-- Positional notation with a given number of places, rounded from the exact value, a tie going to
the even digit. -/
def fixed (places : Nat) (x : Float) : String :=
  match Parts.ofFloat x with
  | .finite negative mantissa power =>
    let n := ((Fraction.ofBinary mantissa power).shiftTen places).roundDiv
    if places = 0 then signText negative ++ String.ofList (digitsOf n)
    else signText negative ++ positional "" ⟨n, -places⟩
  | _ => unplaced x

/-- Exponent notation with a given number of places, rounded from the exact value, a tie going to the
even digit. -/
def scientific (places : Nat) (x : Float) : String :=
  match Parts.ofFloat x with
  | .finite negative 0 _ =>
    signText negative ++ "0" ++ (if places = 0 then "" else "." ++ zeros places) ++ "e0"
  | .finite negative mantissa power =>
    let r := Fraction.ofBinary mantissa power
    let lead := r.leadExponent
    let n := (r.shiftTen (places - lead)).roundDiv
    let d : Digits :=
      if n = Nat.pow 10 (places + 1) then ⟨Nat.pow 10 places, lead + 1 - places⟩
      else ⟨n, lead - places⟩
    signText negative ++ exponential "" d
  | _ => unplaced x

end PulseControl.Decimal
