/-!
# Data to be written

Everything that the program writes as a document is first laid out as a `Datum`: the scalars, lists and
records that all formats share, and values of an alternative, which every format marks in its own way.

* `PulseControl.Datum` – the data.
-/

namespace PulseControl

/-- A value on its way into a document. -/
inductive Datum where
  | null
  | bool (value : Bool)
  | int (value : Int)
  | float (value : Float)
  | str (value : String)
  | list (items : List Datum)
  /-- Named fields in the order in which they are written. -/
  | record (fields : List (String × Datum))
  /-- A value of the named alternative. An alternative without content is a string. -/
  | variant (name : String) (content : Datum)

namespace Datum

instance : Inhabited Datum := ⟨.null⟩

/-- A value that may be missing. -/
def option {τ : Type} (encode : τ → Datum) : Option τ → Datum
  | none => .null
  | some x => encode x

/-- A list of strings. -/
def strings (items : List String) : Datum := .list (items.map .str)

/-- A list of numbers. -/
def floats (items : List Float) : Datum := .list (items.map .float)

end Datum

end PulseControl
