/-!
# Reading whole numbers

A decimal whole number is an optional sign and digits. Reading goes from left to right and stops at the
first character that spoils it, so a number that has grown too large is reported as such even if what
follows is no digit.

* `PulseControl.readInteger` – a whole number within bounds, or what is wrong with the text.
-/

namespace PulseControl

/-- What is wrong with the text of a whole number. -/
inductive IntegerFault where
  /-- There is no text. -/
  | empty
  /-- A character is no digit, or there is no digit. -/
  | invalidDigit
  /-- The number is above the upper bound. -/
  | tooLarge
  /-- The number is below the lower bound. -/
  | tooSmall
  deriving DecidableEq, Repr

/-- The wording of a fault. -/
def IntegerFault.message : IntegerFault → String
  | .empty => "cannot parse integer from empty string"
  | .invalidDigit => "invalid digit found in string"
  | .tooLarge => "number too large to fit in target type"
  | .tooSmall => "number too small to fit in target type"

/-- The value of a digit of either case in a base of at most 36. -/
def digitValue? (base : Nat) (c : Char) : Option Nat :=
  let value :=
    if c.isDigit then c.toNat - '0'.toNat
    else if c.isLower then c.toNat - 'a'.toNat + 10
    else if c.isUpper then c.toNat - 'A'.toNat + 10
    else base
  if value < base then some value else none

/-- The value of digits that are read behind `acc`, as long as it does not exceed `bound`. -/
def readDigits (base bound : Nat) (overflow : IntegerFault) :
    List Char → Nat → Except IntegerFault Nat
  | [], acc => .ok acc
  | c :: cs, acc =>
    match digitValue? base c with
    | none => .error .invalidDigit
    | some d =>
      if bound < base * acc + d then .error overflow
      else readDigits base bound overflow cs (base * acc + d)

/-- The whole number of a text, between `-below` and `above`. A minus sign needs `below` to be
positive: without negative numbers it is no sign. -/
def readInteger (base below above : Nat) (s : String) : Except IntegerFault Int :=
  match s.toList with
  | [] => .error .empty
  | ['+'] | ['-'] => .error .invalidDigit
  | '+' :: cs => (readDigits base above .tooLarge cs 0).map Int.ofNat
  | '-' :: cs =>
    if below = 0 then .error .invalidDigit
    else (readDigits base below .tooSmall cs 0).map fun n => -Int.ofNat n
  | cs => (readDigits base above .tooLarge cs 0).map Int.ofNat

/-- A whole number of 32 bits with sign. -/
def readInt32 : String → Except IntegerFault Int := readInteger 10 0x80000000 0x7fffffff

end PulseControl
