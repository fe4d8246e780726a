import PulseControl.Document.Node
import PulseControl.Document.Yaml.Scanner

/-!
# Reading YAML

The tokens of a text are read by the grammar of lists and records. What was read under an anchor is kept,
and a reference to the anchor stands for it. A text holds one document.

* `PulseControl.Yaml.Reading` – the tokens that are left, the anchors and the handles of tags;
* `PulseControl.Yaml.node?` – one value;
* `PulseControl.Yaml.read?` – the document of a text.
-/

namespace PulseControl.Yaml

/-- The tokens that are left, and what has been given a name. -/
structure Reading where
  tokens : List Token
  /-- What was read under an anchor, the latest first. -/
  anchors : List (String × Node)
  /-- What the handles of tags stand for, the latest first. -/
  handles : List (String × String)

namespace Reading

/-- The next token. -/
def head? (r : Reading) : Option Token := r.tokens.head?

/-- The reading behind the next token. -/
def tail (r : Reading) : Reading := { r with tokens := r.tokens.tail }

/-- Whether one of some tokens comes next, or nothing at all. -/
def nextIn (r : Reading) (ts : List Token) : Bool := r.head?.all ts.contains

end Reading

/-! ### Tags and anchors -/

/-- What a tag says about a value. -/
inductive Mark where
  /-- Nothing. -/
  | none
  /-- The value is one of the named alternative. -/
  | variant (name : String)
  /-- The value is of a standard type. -/
  | claim (type : ScalarClaim)

/-- The stem of the standard tags. -/
def standardStem : String := "tag:yaml.org,2002:"

/-- The meaning of a tag in full. -/
def Mark.ofTag (tag : String) : Mark :=
  if tag = "!" then .none
  else if tag.startsWith "!" then .variant (tag.drop 1).toString
  else if tag = standardStem ++ "null" then .claim .null
  else if tag = standardStem ++ "bool" then .claim .bool
  else if tag = standardStem ++ "int" then .claim .int
  else if tag = standardStem ++ "float" then .claim .float
  else .claim .other

/-- What a handle stands for. -/
def stemOf? (r : Reading) (handle : String) : Option String :=
  match r.handles.lookup handle with
  | some stem => some stem
  | none =>
    if handle = "" then some ""
    else if handle = "!" then some "!"
    else if handle = "!!" then some standardStem
    else none

/-- The meaning of a tag. -/
def mark? (r : Reading) (handle suffix : String) : Option Mark :=
  (stemOf? r handle).map fun stem => Mark.ofTag (stem ++ suffix)

/-- What stands in front of a value: an anchor, a tag, both or neither. -/
structure Properties where
  anchor? : Option String
  tag? : Option Mark

/-- The properties in front of a value, in either order. -/
def properties? (r : Reading) : Option (Properties × Reading) :=
  match r.tokens with
  | .anchor a :: .tag h s :: ts => (mark? r h s).map fun m => (⟨a, m⟩, { r with tokens := ts })
  | .tag h s :: .anchor a :: ts => (mark? r h s).map fun m => (⟨a, m⟩, { r with tokens := ts })
  | .anchor a :: ts => some (⟨a, none⟩, { r with tokens := ts })
  | .tag h s :: ts => (mark? r h s).map fun m => (⟨none, m⟩, { r with tokens := ts })
  | _ => some (⟨none, none⟩, r)

/-- A scalar under a tag. -/
def scalarNode (tag? : Option Mark) (text : String) (isPlain : Bool) : Node :=
  match tag? with
  | some (.variant name) => .variant name (.lexeme ⟨text, isPlain, none⟩)
  | some (.claim type) => .lexeme ⟨text, isPlain, type⟩
  | some .none | none => .lexeme ⟨text, isPlain, none⟩

/-- A list or record under a tag. -/
def collectionNode (tag? : Option Mark) (n : Node) : Node :=
  match tag? with
  | some (.variant name) => .variant name n
  | _ => n

/-- The reading with a value kept under its anchor. -/
def keep (r : Reading) (anchor? : Option String) (n : Node) : Reading :=
  match anchor? with
  | some a => { r with anchors := (a, n) :: r.anchors }
  | none => r

/-! ### The grammar -/

/-- The tokens that end a value in a record in a block. -/
def recordStops : List Token := [.key, .value, .blockEnd]

/-- The tokens that end an item of a list that is not indented. -/
def itemStops : List Token := [.blockItem, .key, .value, .blockEnd]

mutual

/-- **One value.** Blocks are allowed or not, and so is a list whose items are indented no further than
the key in front of it. There are three steps at most from one token to the next, so thrice the number of
tokens is fuel enough. -/
def node? (fuel : Nat) (block flush : Bool) (r : Reading) : Option (Node × Reading) :=
  match fuel with
  | 0 => none
  | fuel + 1 =>
    match r.tokens with
    | .alias name :: _ => (r.anchors.lookup name).map fun n => (n, r.tail)
    | _ => do
      let (props, r) ← properties? r
      let whole (n : Node) (r : Reading) : Node × Reading := (n, keep r props.anchor? n)
      let collection (p : Node × Reading) : Node × Reading :=
        whole (collectionNode props.tag? p.1) p.2
      match r.tokens with
      | .scalar text isPlain :: _ => return whole (scalarNode props.tag? text isPlain) r.tail
      | .flowListStart :: _ => (flowList? fuel true [] r.tail).map collection
      | .flowRecordStart :: _ => (flowRecord? fuel true [] r.tail).map collection
      | t :: _ =>
        if t = .blockItem ∧ flush then (flushList? fuel [] r).map collection
        else if t = .blockListStart ∧ block then (blockList? fuel [] r.tail).map collection
        else if t = .blockRecordStart ∧ block then (blockRecord? fuel [] r.tail).map collection
        else if props.anchor?.isSome ∨ props.tag?.isSome then
          return whole (scalarNode props.tag? "" true) r
        else none
      | [] =>
        if props.anchor?.isSome ∨ props.tag?.isSome then
          return whole (scalarNode props.tag? "" true) r
        else none

/-- A value, or none in front of some tokens. -/
def nodeUnless? (fuel : Nat) (block flush : Bool) (stops : List Token) (r : Reading) :
    Option (Node × Reading) :=
  match fuel with
  | 0 => none
  | fuel + 1 => if r.nextIn stops then some (.blank, r) else node? fuel block flush r

/-- The items of a list in a block. -/
def blockList? (fuel : Nat) (done : List Node) (r : Reading) : Option (Node × Reading) :=
  match fuel with
  | 0 => none
  | fuel + 1 =>
    match r.head? with
    | some .blockItem => do
      let (n, r) ← nodeUnless? fuel true false [.blockItem, .blockEnd] r.tail
      blockList? fuel (n :: done) r
    | some .blockEnd => some (.list done.reverse, r.tail)
    | _ => none

/-- The items of a list that is indented no further than the key in front of it. -/
def flushList? (fuel : Nat) (done : List Node) (r : Reading) : Option (Node × Reading) :=
  match fuel with
  | 0 => none
  | fuel + 1 =>
    match r.head? with
    | some .blockItem => do
      let (n, r) ← nodeUnless? fuel true false itemStops r.tail
      flushList? fuel (n :: done) r
    | _ => some (.list done.reverse, r)

/-- The keys and values of a record in a block. -/
def blockRecord? (fuel : Nat) (done : List (Node × Node)) (r : Reading) :
    Option (Node × Reading) :=
  match fuel with
  | 0 => none
  | fuel + 1 =>
    match r.head? with
    | some .key => do
      let (k, r) ← nodeUnless? fuel true true recordStops r.tail
      let (n, r) ←
        if r.head? = some .value then nodeUnless? fuel true true recordStops r.tail
        else some (.blank, r)
      blockRecord? fuel ((k, n) :: done) r
    | some .blockEnd => some (.record done.reverse, r.tail)
    | _ => none

/-- The items of a list in one line. An item can be a record of one key without brackets. -/
def flowList? (fuel : Nat) (first : Bool) (done : List Node) (r : Reading) :
    Option (Node × Reading) :=
  match fuel with
  | 0 => none
  | fuel + 1 =>
    if r.head? = some .flowListEnd then some (.list done.reverse, r.tail)
    else do
      let r ← if first then some r else if r.head? = some .comma then some r.tail else none
      match r.head? with
      | some .flowListEnd => return (.list done.reverse, r.tail)
      | some .key =>
        let (k, r) ← nodeUnless? fuel false false [.value, .comma, .flowListEnd] r.tail
        let (n, r) ←
          if r.head? = some .value then nodeUnless? fuel false false [.comma, .flowListEnd] r.tail
          else some (.blank, r)
        flowList? fuel false (.record [(k, n)] :: done) r
      | _ =>
        let (n, r) ← node? fuel false false r
        flowList? fuel false (n :: done) r

/-- The keys and values of a record in one line. A key can stand without a value. -/
def flowRecord? (fuel : Nat) (first : Bool) (done : List (Node × Node)) (r : Reading) :
    Option (Node × Reading) :=
  match fuel with
  | 0 => none
  | fuel + 1 =>
    if r.head? = some .flowRecordEnd then some (.record done.reverse, r.tail)
    else do
      let r ← if first then some r else if r.head? = some .comma then some r.tail else none
      match r.head? with
      | some .flowRecordEnd => return (.record done.reverse, r.tail)
      | some .key =>
        let (k, r) ← nodeUnless? fuel false false [.value, .comma, .flowRecordEnd] r.tail
        let (n, r) ←
          if r.head? = some .value then nodeUnless? fuel false false [.comma, .flowRecordEnd] r.tail
          else some (.blank, r)
        flowRecord? fuel false ((k, n) :: done) r
      | _ =>
        let (k, r) ← node? fuel false false r
        flowRecord? fuel false ((k, .blank) :: done) r

end

/-! ### Documents -/

/-- The reading behind the directives in front of a document. -/
def directives (r : Reading) : List Token → Reading
  | .version :: ts => directives r ts
  | .tagHandle handle stem :: ts =>
    directives { r with handles := (handle, stem) :: r.handles } ts
  | ts => { r with tokens := ts }

/-- Whether a token can only stand outside documents. -/
def isOutside : Token → Bool
  | .version | .tagHandle .. | .documentStart | .documentEnd => true
  | _ => false

/-- The document of some tokens. Nothing but marks of its end comes behind it. -/
def document? (ts : List Token) : Option Node := do
  let fuel := 3 * ts.length + 3
  let ended (p : Node × Reading) : Option Node :=
    if p.2.tokens.all (· = .documentEnd) then some p.1 else none
  if ts = [] then return .blank
  let r := directives ⟨ts, [], []⟩ ts
  match r.tokens with
  | .documentStart :: rest =>
    let r := { r with tokens := rest }
    if rest.head?.all isOutside then ended (.blank, r) else ended (← node? fuel true false r)
  | _ => if r.tokens.length = ts.length then ended (← node? fuel true false r) else none

/-- How deep lists and records may be nested. -/
def maxDepth : Nat := 128

/-- **The document of a text.** A text without a document is blank. -/
def read? (s : String) : Option Node := do
  let document ← document? (← tokens? s)
  if document.depth ≤ maxDepth then return document else none

end PulseControl.Yaml
