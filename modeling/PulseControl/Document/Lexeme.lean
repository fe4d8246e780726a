import PulseControl.Decimal.Reading
import PulseControl.Text.Integer

/-!
# Untyped scalars

A scalar of a YAML document is a piece of text. What it denotes is decided when it is read: where a
type is expected, by that type, and otherwise by what the text looks like.

* `PulseControl.Lexeme` – a scalar as it stands in a document;
* `PulseControl.Lexeme.natural?`, `PulseControl.Lexeme.number?`, `PulseControl.Lexeme.boolean?` – its
  readings where a type is expected;
* `PulseControl.Lexeme.meaning` – its reading where none is.
-/

namespace PulseControl

/-- The standard types that a document can claim for a scalar. -/
inductive ScalarClaim where
  | null
  | bool
  | int
  | float
  /-- Any other claim, which makes the scalar a string. -/
  | other
  deriving DecidableEq, Repr

/-- A scalar as it stands in a document. -/
structure Lexeme where
  text : String
  /-- Whether the scalar stands without quotes and not as a block. -/
  plain : Bool
  /-- The type that the document claims for the scalar. -/
  claim? : Option ScalarClaim
  deriving DecidableEq, Repr

/-- What a scalar denotes. -/
inductive Meaning where
  | null
  | bool (value : Bool)
  | int (value : Int)
  | float (value : Float)
  | str (value : String)
  /-- The scalar denotes nothing, because its claim is wrong or it is a whole number of more than 64
  bits. -/
  | nothing

namespace Lexeme

/-- An empty scalar that stands for itself. -/
def blank : Lexeme := ⟨"", true, none⟩

/-- The words for no value. -/
def isNullWord (s : String) : Bool := s = "null" || s = "Null" || s = "NULL" || s = "~"

/-- The truth value of a word. -/
def boolWord? (s : String) : Option Bool :=
  if s = "true" || s = "True" || s = "TRUE" then some true
  else if s = "false" || s = "False" || s = "FALSE" then some false
  else none

/-- The value of a row of at least one digit. -/
def digitsIn? (base : Nat) (ds : List Char) : Option Nat :=
  if ds = [] then none
  else
    match readDigits base 0xffffffffffffffffffffffffffffffff .tooLarge ds 0 with
    | .ok n => some n
    | .error _ => none

/-- Whether the text is a row of digits that starts with a needless zero, which makes it a string. -/
def hasNeedlessZero (s : String) : Bool :=
  match (Decimal.splitSign s.toList).2 with
  | '0' :: d :: ds => (d :: ds).all Char.isDigit
  | _ => false

/-- The value of a whole number without sign, in base 10 or behind a mark in base 16, 8 or 2. It has
128 bits at most. -/
def magnitude? : List Char → Option Nat
  | '0' :: 'x' :: ds => digitsIn? 16 ds
  | '0' :: 'o' :: ds => digitsIn? 8 ds
  | '0' :: 'b' :: ds => digitsIn? 2 ds
  | ds => digitsIn? 10 ds

/-- The value of a whole number. -/
def integerOf? (s : String) : Option Int :=
  if hasNeedlessZero s then none
  else
    match s.toList with
    | '-' :: cs =>
      (magnitude? cs).bind fun n =>
        if n ≤ 0x80000000000000000000000000000000 then some (-Int.ofNat n) else none
    | '+' :: cs => (magnitude? cs).map Int.ofNat
    | cs => (magnitude? cs).map Int.ofNat

/-- The value of a number. A decimal beyond the largest float is none. -/
def numberOf? (s : String) : Option Float :=
  if s = ".inf" || s = ".Inf" || s = ".INF" || s = "+.inf" || s = "+.Inf" || s = "+.INF" then
    some (1.0 / 0.0)
  else if s = "-.inf" || s = "-.Inf" || s = "-.INF" then some (-1.0 / 0.0)
  else if s = ".nan" || s = ".NaN" || s = ".NAN" then some (0.0 / 0.0)
  else (Decimal.readNumeral? s).filter Float.isFinite

/-- The meaning of a whole number, of which 64 bits are enough. -/
def meaningOfInt (i : Int) : Meaning :=
  if -0x8000000000000000 ≤ i ∧ i < 0x10000000000000000 then .int i else .nothing

/-- What a text looks like. -/
def meaningOfText (s : String) : Meaning :=
  if s = "" || isNullWord s then .null
  else
    match boolWord? s with
    | some b => .bool b
    | none =>
      match integerOf? s with
      | some i => meaningOfInt i
      | none =>
        if hasNeedlessZero s then .str s
        else
          match numberOf? s with
          | some x => .float x
          | none => .str s

/-- **What a scalar denotes** where no type is expected. -/
def meaning (l : Lexeme) : Meaning :=
  match l.claim? with
  | none => if l.plain then meaningOfText l.text else .str l.text
  | some .null => if isNullWord l.text then .null else .nothing
  | some .bool => (boolWord? l.text).elim .nothing .bool
  | some .int => (integerOf? l.text).elim .nothing meaningOfInt
  | some .float => (numberOf? l.text).elim .nothing .float
  | some .other => .str l.text

/-- The scalar as a truth value. -/
def boolean? (l : Lexeme) : Option Bool := if l.plain then boolWord? l.text else none

/-- The scalar as a number. -/
def number? (l : Lexeme) : Option Float := if l.plain then numberOf? l.text else none

/-- The scalar as a whole number that is not negative. A minus sign is none, not even before zero. -/
def natural? (l : Lexeme) : Option Nat :=
  if l.plain && !l.text.startsWith "-" then (integerOf? l.text).map Int.toNat else none

/-- Whether the scalar stands for no value at all. -/
def isAbsent (l : Lexeme) : Bool :=
  l.plain &&
    match l.claim? with
    | none => l.text = "" || isNullWord l.text
    | some .null => isNullWord l.text
    | some _ => false

/-- Whether the scalar is claimed to be no value although it does not spell one. -/
def isFalseNull (l : Lexeme) : Bool := l.plain && l.claim? = some .null && !isNullWord l.text

/-- Whether the scalar stands for an empty list or record. -/
def isBlank (l : Lexeme) : Bool := l.plain && l.text = ""

end Lexeme

end PulseControl
