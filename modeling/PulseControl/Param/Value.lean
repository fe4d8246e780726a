import PulseControl.Decimal.Style
import PulseControl.Gate.Key
import PulseControl.Param.Table

/-!
# Parameter values

The parameters of a gate are booleans, whole numbers, floats, strings and interpolation tables. A
schema declares their types, and a whole number is accepted where a float is declared.

* `PulseControl.ParamValue` – the values, `PulseControl.ParamType` – their types;
* `PulseControl.ParamValue.coerce?` – a value as one of a declared type;
* `PulseControl.ParamValues` – values by name.
-/

namespace PulseControl

/-- The types of parameters. -/
inductive ParamType where
  | float
  | int
  | bool
  | str
  | table
  deriving DecidableEq, Repr, Inhabited

namespace ParamType

/-- The name of a type. -/
def name : ParamType → String
  | .float => "float"
  | .int => "int"
  | .bool => "bool"
  | .str => "str"
  | .table => "table"

/-- The type of a name. -/
def ofName? (s : String) : Option ParamType :=
  [float, int, bool, str, table].find? fun t => t.name = s

theorem ofName?_name (t : ParamType) : ofName? t.name = some t := by cases t <;> decide

end ParamType

/-- A parameter value. -/
inductive ParamValue (α : Type) where
  | bool (value : Bool)
  | int (value : Int64)
  | float (value : α)
  | str (value : String)
  | table (rows : List (List α))
  deriving Repr

/-- Parameter values by name. -/
abbrev ParamValues (α : Type) := Std.ExtTreeMap String (ParamValue α)

namespace ParamValue

variable {α : Type}

instance : Inhabited (ParamValue α) := ⟨.bool false⟩

/-- The type of a value. -/
def type : ParamValue α → ParamType
  | .bool _ => .bool
  | .int _ => .int
  | .float _ => .float
  | .str _ => .str
  | .table _ => .table

/-- The value as one of a declared type: a whole number becomes a float where one is declared, and all
else keeps its own type. -/
def coerce? [Scalar α] (v : ParamValue α) (declared : ParamType) : Option (ParamValue α) :=
  match v, declared with
  | .int i, .float => some (.float (Scalar.ofInt i.toInt))
  | v, declared => if v.type = declared then some v else none

theorem type_of_coerce? [Scalar α] {v w : ParamValue α} {declared : ParamType}
    (h : v.coerce? declared = some w) : w.type = declared := by
  unfold coerce? at h
  split at h
  · cases h; rfl
  · split at h
    · next ht => cases h; exact ht
    · cases h

end ParamValue

/-- The text of a value. A table is shown row by row. -/
def ParamValue.text : ParamValue Float → String
  | .bool b => toString b
  | .int i => toString i.toInt
  | .float x => Decimal.NumberStyle.plain.write x
  | .str s => s
  | .table rows =>
    let row (r : List Float) : String :=
      "[" ++ ", ".intercalate (r.map Decimal.NumberStyle.tableEntry.write) ++ "]"
    "[" ++ ", ".intercalate (rows.map row) ++ "]"

end PulseControl
