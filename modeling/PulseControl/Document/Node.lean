import PulseControl.Document.Lexeme

/-!
# Documents that have been read

A document is a tree of scalars, lists and records. In JSON a scalar carries its type. In YAML it is a
`PulseControl.Lexeme`, and a value can be marked as one of an alternative.

* `PulseControl.Node` – the trees;
* `PulseControl.Node.settle` – the tree with every scalar typed by its looks;
* `PulseControl.Node.depth` – how deep lists and records are nested.
-/

namespace PulseControl

/-- A document that has been read. -/
inductive Node where
  | null
  | bool (value : Bool)
  | int (value : Int)
  | float (value : Float)
  | str (value : String)
  /-- A scalar that carries no type. -/
  | lexeme (scalar : Lexeme)
  | list (items : List Node)
  /-- A record; its keys are as they stand in the document and may repeat. -/
  | record (fields : List (Node × Node))
  /-- A value marked as one of the named alternative. -/
  | variant (name : String) (content : Node)
  /-- A scalar that is well formed and denotes nothing. It can be passed over, but not be read. -/
  | invalid

namespace Node

instance : Inhabited Node := ⟨.null⟩

/-- A document without any content. -/
def blank : Node := .lexeme .blank

mutual

/-- How deep lists and records are nested. -/
def depth : Node → Nat
  | .list items => depthOfItems items + 1
  | .record fields => depthOfFields fields + 1
  | .variant _ content => depth content
  | _ => 0

/-- The greatest depth among items. -/
def depthOfItems : List Node → Nat
  | [] => 0
  | n :: ns => max (depth n) (depthOfItems ns)

/-- The greatest depth among keys and values. -/
def depthOfFields : List (Node × Node) → Nat
  | [] => 0
  | (k, n) :: fields => max (max (depth k) (depth n)) (depthOfFields fields)

end

/-- A scalar of known meaning. -/
def ofMeaning? : Meaning → Option Node
  | .null => some .null
  | .bool b => some (.bool b)
  | .int i => some (.int i)
  | .float x => some (.float x)
  | .str s => some (.str s)
  | .nothing => none

mutual

/-- **The document with its scalars typed** by what they look like. There is none if some scalar denotes
nothing or some value is marked as one of an alternative. -/
def settle : Node → Option Node
  | .lexeme l => ofMeaning? l.meaning
  | .list items => (settleItems items).map .list
  | .record fields => (settleFields fields).map .record
  | .variant _ _ => none
  | .invalid => none
  | .null => some .null
  | .bool b => some (.bool b)
  | .int i => some (.int i)
  | .float x => some (.float x)
  | .str s => some (.str s)

/-- The items of a list, each settled. -/
def settleItems : List Node → Option (List Node)
  | [] => some []
  | n :: ns => do
    let n ← settle n
    let ns ← settleItems ns
    return n :: ns

/-- The keys and values of a record, each settled. -/
def settleFields : List (Node × Node) → Option (List (Node × Node))
  | [] => some []
  | (k, n) :: fields => do
    let k ← settle k
    let n ← settle n
    let fields ← settleFields fields
    return (k, n) :: fields

end

end Node

end PulseControl
