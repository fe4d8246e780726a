import PulseControl.Document.Node

/-!
# Values read off documents

What a node is taken for depends on the type that is expected: the same scalar can be read as a string,
as a number or as nothing at all. Records and alternatives are spelt in JSON and in YAML each in their own
way.

* `PulseControl.Node.string?`, `PulseControl.Node.float?`, `PulseControl.Node.listOf?` and the like – one
  function for every kind of value;
* `PulseControl.Node.fields?` – the fields of a record;
* `PulseControl.Node.alternative?` – the name and the content of an alternative.
-/

namespace PulseControl

/-- The formats of documents. -/
inductive DocumentFormat where
  | json
  | yaml
  deriving DecidableEq, Repr

namespace Node

/-! ### Scalars and lists -/

/-- The value without the mark of an alternative, which no other type asks for. -/
def bare : Node → Node
  | .variant _ content => content
  | n => n

/-- The value as a string. An untyped scalar is any string. -/
def string? (n : Node) : Option String :=
  match n.bare with
  | .str s => some s
  | .lexeme l => some l.text
  | _ => none

/-- The value as a truth value. -/
def bool? (n : Node) : Option Bool :=
  match n.bare with
  | .bool b => some b
  | .lexeme l => l.boolean?
  | _ => none

/-- The value as a number, which may be written as a whole one. -/
def float? (n : Node) : Option Float :=
  match n.bare with
  | .float x => some x
  | .int i => some (Float.ofInt i)
  | .lexeme l => l.number?
  | _ => none

/-- The value as a whole number from 0 to `limit`. -/
def natural? (limit : Nat) (n : Node) : Option Nat :=
  let value? :=
    match n.bare with
    | .int i => if 0 ≤ i then some i.toNat else none
    | .lexeme l => l.natural?
    | _ => none
  value?.filter (· ≤ limit)

/-- The value as a whole number of 64 bits without sign. -/
def index? : Node → Option Nat := natural? (UInt64.size - 1)

/-- The items of a list. -/
def items? (n : Node) : Option (List Node) :=
  match n.bare with
  | .list items => some items
  | .lexeme l => if l.isBlank then some [] else none
  | _ => none

/-- The value as a list of values of one type. -/
def listOf? {τ : Type} (read? : Node → Option τ) (n : Node) : Option (List τ) :=
  n.items?.bind fun items => items.mapM read?

/-- The two items of a list. -/
def pair? (n : Node) : Option (Node × Node) :=
  match n.items? with
  | some [a, b] => some (a, b)
  | _ => none

/-- Whether the value stands for none. -/
def isAbsent : Node → Bool
  | .null => true
  | .lexeme l => l.isAbsent
  | _ => false

/-- Whether the value claims to be none although it does not spell that. -/
def isFalseNull : Node → Bool
  | .lexeme l => l.isFalseNull
  | _ => false

/-- The value, or none. -/
def optional? {τ : Type} (read? : Node → Option τ) (n : Node) : Option (Option τ) :=
  if n.isAbsent then some none else if n.isFalseNull then none else (read? n).map some

/-! ### Records -/

/-- The entries of a record whose keys are any strings, the later value of a key winning in a map. -/
def entries? (n : Node) : Option (List (String × Node)) :=
  match n.bare with
  | .record fields => fields.mapM fun f => f.1.string?.map fun key => (key, f.2)
  | .lexeme l => if l.isBlank then some [] else none
  | _ => none

/-- The name of a field. Where scalars have been typed by their looks, a field can also be given by its
position, and a number beyond all positions is passed over. -/
def fieldName? (names : List String) (key : Node) : Option String :=
  match key with
  | .int i => if 0 ≤ i then some (names.getD i.toNat "") else none
  | key => key.string?

/-- The fields of a record. -/
structure Fields where
  /-- The fields that are there. -/
  entries : List (String × Node)
  /-- Whether they were given as a list, in order. -/
  positional : Bool

/-- Fields of which no name occurs twice. -/
def Fields.unique? (entries : List (String × Node)) : Option Fields :=
  if (entries.map Prod.fst).Nodup then some ⟨entries, false⟩ else none

/-- **The fields of a record** that has fields of the given names. Other fields are passed over. In JSON a
record can also be a list of its fields in order. -/
def fields? (format : DocumentFormat) (names : List String) (n : Node) : Option Fields :=
  match n.bare with
  | .record fields => do
    let named ← fields.mapM fun f => (fieldName? names f.1).map fun name => (name, f.2)
    Fields.unique? (named.filter fun f => names.contains f.1)
  | .list items =>
    if format = .json ∧ items.length ≤ names.length then some ⟨names.zip items, true⟩ else none
  | .lexeme l => if l.isBlank then some ⟨[], false⟩ else none
  | _ => none

namespace Fields

/-- The field of a name. -/
def get? (f : Fields) (name : String) : Option Node := f.entries.lookup name

/-- A field that has to be there. -/
def required? {τ : Type} (f : Fields) (name : String) (read? : Node → Option τ) : Option τ :=
  (f.get? name).bind read?

/-- A field whose value may be none. In a record it may also be left out, but not in a list. -/
def optional? {τ : Type} (f : Fields) (name : String) (read? : Node → Option τ) :
    Option (Option τ) :=
  match f.get? name with
  | some n => n.optional? read?
  | none => if f.positional then none else some none

/-- A field with a value for where it is left out. -/
def withDefault? {τ : Type} (f : Fields) (name : String) (default : τ) (read? : Node → Option τ) :
    Option τ :=
  match f.get? name with
  | some n => read? n
  | none => some default

end Fields

/-- The fields of a record in which those of another record are spread, of `outer` the ones of this record
and of `inner` the ones of the other. All fields that are not of this record must denote something. -/
def spreadFields? (outer inner : List String) (n : Node) : Option (Fields × Fields) :=
  match n.bare with
  | .record fields => do
    let named ← fields.mapM fun f => (fieldName? [] f.1).map fun name => (name, f.2)
    let (own, rest) := named.partition fun f => outer.contains f.1
    let rest ← rest.mapM fun f => f.2.settle.map fun value => (f.1, value)
    let own ← Fields.unique? own
    let spread ← Fields.unique? (rest.filter fun f => inner.contains f.1)
    return (own, spread)
  | .lexeme l => if l.isBlank then some (⟨[], false⟩, ⟨[], false⟩) else none
  | _ => none

/-! ### Alternatives -/

/-- **The name and the content of an alternative.** An alternative without content is a string. Otherwise
it is a record of one field in JSON, and a marked value in YAML. -/
def alternative? (format : DocumentFormat) (n : Node) : Option (String × Option Node) :=
  match n with
  | .variant name content => some (name, some content)
  | .record [(key, content)] =>
    if format = .json then key.string?.map fun name => (name, some content) else none
  | .str s => some (s, none)
  | .lexeme l => some (l.text, none)
  | _ => none

/-- Whether the content of an alternative is none. -/
def isEmptyContent (content? : Option Node) : Bool := content?.all isAbsent

/-- One of several names. -/
def oneOf? {τ : Type} (ofName? : String → Option τ) (format : DocumentFormat) (n : Node) : Option τ := do
  let (name, content?) ← n.alternative? format
  if isEmptyContent content? then ofName? name else none

/-! ### Parts are smaller than the whole -/

theorem sizeOf_bare_le (n : Node) : sizeOf n.bare ≤ sizeOf n := by
  cases n <;> simp [bare]

theorem sizeOf_of_mem_items? {n m : Node} {items : List Node} (h : n.items? = some items)
    (hm : m ∈ items) : sizeOf m < sizeOf n := by
  have hb := sizeOf_bare_le n
  unfold items? at h
  split at h
  · next items' hn =>
    cases h
    have := List.sizeOf_lt_of_mem hm
    rw [hn] at hb
    simp only [Node.list.sizeOf_spec] at hb
    omega
  · split at h
    · cases h
      cases hm
    · cases h
  · cases h

theorem sizeOf_of_pair? {n a b : Node} (h : n.pair? = some (a, b)) :
    sizeOf a < sizeOf n ∧ sizeOf b < sizeOf n := by
  unfold pair? at h
  split at h
  · next x y hi =>
    cases h
    exact ⟨sizeOf_of_mem_items? hi (by simp), sizeOf_of_mem_items? hi (by simp)⟩
  · cases h

theorem sizeOf_of_alternative? {format : DocumentFormat} {n content : Node} {name : String}
    (h : n.alternative? format = some (name, some content)) : sizeOf content < sizeOf n := by
  unfold alternative? at h
  split at h
  · cases h
    simp only [Node.variant.sizeOf_spec]
    omega
  · split at h
    · obtain ⟨key, _, hk⟩ := Option.map_eq_some_iff.mp h
      cases hk
      simp only [Node.record.sizeOf_spec, List.cons.sizeOf_spec, Prod.mk.sizeOf_spec]
      omega
    · cases h
  · cases h
  · cases h
  · cases h

end Node

end PulseControl
