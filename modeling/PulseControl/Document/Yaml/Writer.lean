import PulseControl.Decimal.Style
import PulseControl.Document.Datum
import PulseControl.Document.Yaml.Quote

/-!
# Writing YAML

Lists and records are written as blocks, an item or a field a line. What is nested is indented by two
columns, but for a list behind the key of a record, and it starts on the line of the dash in front of it.
A value of an alternative is marked with its name. Where an alternative has another one for its content,
both would mark the same value, so such a value has no text.

* `PulseControl.Yaml.Layout` – the lines of a value;
* `PulseControl.Yaml.write?` – the text of a value.
-/

namespace PulseControl.Yaml

/-- The lines of a value that is to be put in its place. -/
inductive Layout where
  /-- A value that starts on the line it is put in, and its further lines. -/
  | line (head : String) (more : List String)
  /-- A value that takes lines of its own. -/
  | block (lines : List String)

/-- A row of blanks. -/
def pad (n : Nat) : String := String.ofList (List.replicate n ' ')

/-- The column of what is nested in a list or record; there is nothing around the outermost one. -/
def nestedIndent : Option Nat → Nat
  | none => 0
  | some i => i + 2

namespace Layout

/-- The lines of a value behind a mark of one character. A block starts on the line of the mark. -/
def behindMark (indent : Nat) (mark : String) : Layout → List String
  | .line head more => (pad indent ++ mark ++ " " ++ head) :: more
  | .block (l :: ls) => (pad indent ++ mark ++ " " ++ (l.drop (indent + 2)).toString) :: ls
  | .block [] => [pad indent ++ mark]

/-- The lines of a value behind a key. -/
def behindKey (indent : Nat) (key : String) : Layout → List String
  | .line head more => (pad indent ++ key ++ ": " ++ head) :: more
  | .block ls => (pad indent ++ key ++ ":") :: ls

/-- A value marked as one of an alternative. -/
def marked (name : String) : Layout → Layout
  | .line head more => .line ("!" ++ name ++ " " ++ head) more
  | .block ls => .line ("!" ++ name) ls

/-- All lines. -/
def lines : Layout → List String
  | .line head more => head :: more
  | .block ls => ls

end Layout

/-- A string in its place. Around it the text is indented by `parent`. -/
def stringLayout (parent : Option Nat) (s : String) : Layout :=
  match styleOf s with
  | .literal =>
    let indent := (parent.getD 0) + blockIndent
    .line (blockHeader s)
      ((linesOf [] s.toList).map fun l => if l.isEmpty then l else pad indent ++ l)
  | style => .line (quoted style s) []

/-- How long a key may be that stands in front of its colon. -/
def keyLimit : Nat := 128

/-- Whether a key stands on a line in front of its colon. -/
def isSimpleKey (key : String) : Bool := styleOf key != .literal && key.utf8ByteSize ≤ keyLimit &&
  !key.toList.any isLineBreak

mutual

/-- The lines of a value. Around it the text is indented by `parent`, and `flush` says that it stands
behind a key. -/
def layout? (parent : Option Nat) (flush : Bool) : Datum → Option Layout
  | .null => some (.line "null" [])
  | .bool b => some (.line (toString b) [])
  | .int i => some (.line (toString i) [])
  | .float x => some (.line (Decimal.NumberStyle.yaml.write x) [])
  | .str s => some (stringLayout parent s)
  | .list items =>
    if items.isEmpty then some (.line "[]" [])
    else
      (itemLines? (if flush then parent.getD 0 else nestedIndent parent) items).map .block
  | .record fields =>
    if fields.isEmpty then some (.line "\x7b\x7d" [])
    else (fieldLines? (nestedIndent parent) fields).map .block
  | .variant _ (.variant _ _) => none
  | .variant name content => (layout? parent flush content).map (Layout.marked name)

/-- The lines of the items of a list that is indented by `indent`. -/
def itemLines? (indent : Nat) : List Datum → Option (List String)
  | [] => some []
  | d :: ds => do
    let item ← layout? (some indent) false d
    return item.behindMark indent "-" ++ (← itemLines? indent ds)

/-- The lines of the fields of a record that is indented by `indent`. A key that does not fit in front of
its colon has a mark of its own. -/
def fieldLines? (indent : Nat) : List (String × Datum) → Option (List String)
  | [] => some []
  | (name, d) :: fields =>
    if isSimpleKey name then do
      let value ← layout? (some indent) true d
      return value.behindKey indent (quoted (styleOf name) name) ++ (← fieldLines? indent fields)
    else do
      let value ← layout? (some indent) false d
      return (stringLayout (some indent) name).behindMark indent "?" ++
        value.behindMark indent ":" ++ (← fieldLines? indent fields)

end

/-- **The text of a value**, if it has one. -/
def write? (d : Datum) : Option String :=
  (layout? none false d).map fun l => String.join (l.lines.map (· ++ "\n"))

end PulseControl.Yaml
