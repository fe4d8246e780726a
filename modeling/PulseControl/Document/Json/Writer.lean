import PulseControl.Decimal.Style
import PulseControl.Document.Datum

/-!
# Writing JSON

A JSON text comes in two layouts: on one line without blanks, and with one item a line, indented by two
blanks for each level. A value of an alternative is an object whose one key is its name.

* `PulseControl.Json.quote` – a string in quotes;
* `PulseControl.Json.write`, `PulseControl.Json.writeIndented` – the two layouts.
-/

namespace PulseControl.Json

/-- A digit of a number in base 16. -/
def hexDigit (n : Nat) : Char := if n < 10 then Char.ofNat (48 + n) else Char.ofNat (87 + n)

/-- What stands for a character inside quotes. Control characters without a short form of their own are
given by number; all else stands for itself. -/
def escape (c : Char) : List Char :=
  if c = '"' then ['\\', '"']
  else if c = '\\' then ['\\', '\\']
  else if c = '\n' then ['\\', 'n']
  else if c = '\r' then ['\\', 'r']
  else if c = '\t' then ['\\', 't']
  else if c.toNat = 8 then ['\\', 'b']
  else if c.toNat = 12 then ['\\', 'f']
  else if c.toNat < 32 then
    ['\\', 'u', '0', '0', hexDigit (c.toNat / 16), hexDigit (c.toNat % 16)]
  else [c]

/-- A string in quotes. -/
def quote (s : String) : String := "\"" ++ String.ofList (s.toList.flatMap escape) ++ "\""

mutual

/-- The text of a value on one line. -/
def write : Datum → String
  | .null => "null"
  | .bool b => toString b
  | .int i => toString i
  | .float x => Decimal.NumberStyle.json.write x
  | .str s => quote s
  | .list items => "[" ++ writeItems items ++ "]"
  | .record fields => "\x7b" ++ writeFields fields ++ "\x7d"
  | .variant name content => "\x7b" ++ quote name ++ ":" ++ write content ++ "\x7d"

/-- Items with commas between them. -/
def writeItems : List Datum → String
  | [] => ""
  | [d] => write d
  | d :: ds => write d ++ "," ++ writeItems ds

/-- Fields with commas between them. -/
def writeFields : List (String × Datum) → String
  | [] => ""
  | [(name, d)] => quote name ++ ":" ++ write d
  | (name, d) :: fields => quote name ++ ":" ++ write d ++ "," ++ writeFields fields

end

/-- The start of a line at a level. -/
def lineStart (level : Nat) : String := "\n" ++ String.ofList (List.replicate (2 * level) ' ')

mutual

/-- The text of a value with one item a line, the items at the given level. -/
def writeAt (level : Nat) : Datum → String
  | .list items =>
    if items.isEmpty then "[]"
    else "[" ++ writeItemsAt level items ++ lineStart (level - 1) ++ "]"
  | .record fields =>
    if fields.isEmpty then "\x7b\x7d"
    else "\x7b" ++ writeFieldsAt level fields ++ lineStart (level - 1) ++ "\x7d"
  | .variant name content =>
    "\x7b" ++ lineStart level ++ quote name ++ ": " ++ writeAt (level + 1) content ++
      lineStart (level - 1) ++ "\x7d"
  | .null => "null"
  | .bool b => toString b
  | .int i => toString i
  | .float x => Decimal.NumberStyle.json.write x
  | .str s => quote s

/-- Items, each on a line of its own. -/
def writeItemsAt (level : Nat) : List Datum → String
  | [] => ""
  | [d] => lineStart level ++ writeAt (level + 1) d
  | d :: ds => lineStart level ++ writeAt (level + 1) d ++ "," ++ writeItemsAt level ds

/-- Fields, each on a line of its own. -/
def writeFieldsAt (level : Nat) : List (String × Datum) → String
  | [] => ""
  | [(name, d)] => lineStart level ++ quote name ++ ": " ++ writeAt (level + 1) d
  | (name, d) :: fields =>
    lineStart level ++ quote name ++ ": " ++ writeAt (level + 1) d ++ "," ++
      writeFieldsAt level fields

end

/-- The text of a value with one item a line. -/
def writeIndented (d : Datum) : String := writeAt 1 d

end PulseControl.Json
