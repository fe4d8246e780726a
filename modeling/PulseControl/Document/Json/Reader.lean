import PulseControl.Document.Json.Numeral

/-!
# Reading JSON

A JSON text is first cut into tokens. A machine with a stack of the lists and records that are still
open then takes one token after the other, so reading ends where the text does.

* `PulseControl.Json.tokens?` – the tokens of a text;
* `PulseControl.Json.Machine.step` – the machine;
* `PulseControl.Json.read?` – the document of a text.
-/

namespace PulseControl.Json

/-- The tokens of JSON. -/
inductive Token where
  | openList
  | closeList
  | openRecord
  | closeRecord
  | comma
  | colon
  /-- A string; it has no content if its escapes do not make up characters. -/
  | text (content? : Option String)
  /-- A number or one of the words. -/
  | scalar (value : Node)

/-! ### Strings -/

/-- The text up to the closing quote, escapes untouched, and the text behind it. -/
def splitString : List Char → Option (List Char × List Char)
  | [] => none
  | '"' :: rest => some ([], rest)
  | '\\' :: c :: rest => (splitString rest).map fun (raw, rest) => ('\\' :: c :: raw, rest)
  | c :: rest =>
    if c.toNat < 32 then none else (splitString rest).map fun (raw, rest) => (c :: raw, rest)

theorem length_splitString {cs raw rest : List Char} (h : splitString cs = some (raw, rest)) :
    rest.length < cs.length := by
  fun_induction splitString cs generalizing raw rest with
  | case1 => cases h
  | case2 tail => cases h; simp
  | case3 c tail ih =>
    obtain ⟨⟨r, t⟩, ht, he⟩ := Option.map_eq_some_iff.mp h
    cases he
    have := ih ht
    simp only [List.length_cons]
    omega
  | case4 => cases h
  | case5 c tail _ _ _ ih =>
    obtain ⟨⟨r, t⟩, ht, he⟩ := Option.map_eq_some_iff.mp h
    cases he
    have := ih ht
    simp only [List.length_cons]
    omega

/-- The number of four digits in base 16. -/
def hexValue? (ds : List Char) : Option Nat :=
  ds.foldlM (fun n d => (digitValue? 16 d).map (16 * n + ·)) 0

/-- What a short escape stands for. -/
def shortEscape? (c : Char) : Option Nat :=
  if c = '"' ∨ c = '\\' ∨ c = '/' then some c.toNat
  else if c = 'b' then some 8
  else if c = 'f' then some 12
  else if c = 'n' then some 10
  else if c = 'r' then some 13
  else if c = 't' then some 9
  else none

/-- The code units of a string: a character or a short escape is one code point, and an escape by number
is the half of one where the number says so. -/
def codeUnits? : List Char → Option (List Nat)
  | [] => some []
  | '\\' :: 'u' :: a :: b :: c :: d :: rest => do
    let unit ← hexValue? [a, b, c, d]
    return unit :: (← codeUnits? rest)
  | '\\' :: c :: rest => do
    let unit ← shortEscape? c
    return unit :: (← codeUnits? rest)
  | c :: rest => (codeUnits? rest).map (c.toNat :: ·)

/-- The characters of code units. Two halves make up one character, and no half stands alone. -/
def joinUnits? : List Nat → Option (List Char)
  | [] => some []
  | [u] => if 0xD800 ≤ u ∧ u ≤ 0xDFFF then none else some [Char.ofNat u]
  | u :: v :: rest =>
    if 0xD800 ≤ u ∧ u ≤ 0xDBFF then
      if 0xDC00 ≤ v ∧ v ≤ 0xDFFF then
        (joinUnits? rest).map (Char.ofNat ((u - 0xD800) * 0x400 + (v - 0xDC00) + 0x10000) :: ·)
      else none
    else if 0xDC00 ≤ u ∧ u ≤ 0xDFFF then none
    else (joinUnits? (v :: rest)).map (Char.ofNat u :: ·)

/-- The token of a string with its escapes untouched. -/
def stringToken? (raw : List Char) : Option Token :=
  (codeUnits? raw).map fun units => .text ((joinUnits? units).map String.ofList)

/-! ### Tokens -/

/-- The characters that may stand between tokens. -/
def isBlank (c : Char) : Bool := c = ' ' || c = '\n' || c = '\t' || c = '\r'

/-- The characters that numbers and words are made of. -/
def isWordChar (c : Char) : Bool := c.isAlphanum || c = '+' || c = '-' || c = '.'

/-- The token of a number or a word. -/
def wordToken? (w : List Char) : Option Token :=
  if w = "null".toList then some (.scalar .null)
  else if w = "true".toList then some (.scalar (.bool true))
  else if w = "false".toList then some (.scalar (.bool false))
  else (Numeral.parse? w).map fun n => .scalar n.toNode

/-- The token that is a single character. -/
def mark? (c : Char) : Option Token :=
  if c = '[' then some .openList
  else if c = ']' then some .closeList
  else if c = '\x7b' then some .openRecord
  else if c = '\x7d' then some .closeRecord
  else if c = ',' then some .comma
  else if c = ':' then some .colon
  else none

/-- **The tokens of a text.** -/
def tokens? : List Char → Option (List Token)
  | [] => some []
  | c :: rest =>
    if isBlank c then tokens? rest
    else if c = '"' then
      match _h : splitString rest with
      | none => none
      | some (raw, rest') => do
        let token ← stringToken? raw
        return token :: (← tokens? rest')
    else if isWordChar c then do
      let token ← wordToken? (c :: rest.takeWhile isWordChar)
      return token :: (← tokens? (rest.dropWhile isWordChar))
    else do
      let token ← mark? c
      return token :: (← tokens? rest)
termination_by cs => cs.length
decreasing_by
  · simp
  · have := length_splitString _h
    simp only [List.length_cons]
    omega
  · have := (List.dropWhile_sublist isWordChar (l := rest)).length_le
    simp only [List.length_cons]
    omega
  · simp

/-! ### The machine -/

/-- A list or record that is still open, with what it has so far, the latest first. -/
inductive Frame where
  | list (items : List Node)
  /-- A record, perhaps with a key whose value is due. -/
  | record (fields : List (Node × Node)) (key? : Option Node)

/-- What has to come next. -/
inductive Due where
  /-- A value; behind the start of a list the end of it will also do. -/
  | value (first : Bool)
  /-- A key; behind the start of a record the end of it will also do. -/
  | key (first : Bool)
  /-- The colon behind a key. -/
  | colon
  /-- A comma or the end of the list or record. -/
  | separator
  /-- Nothing: the document is complete. -/
  | nothing (document : Node)

/-- The machine: the open lists and records, the innermost first, and what is due. -/
structure Machine where
  frames : List Frame
  due : Due

namespace Machine

/-- The machine before the first token. -/
def start : Machine := ⟨[], .value false⟩

/-- The machine behind a complete value. -/
def complete (frames : List Frame) (value : Node) : Machine :=
  match frames with
  | [] => ⟨[], .nothing value⟩
  | .list items :: outer => ⟨.list (value :: items) :: outer, .separator⟩
  | .record fields key? :: outer =>
    ⟨.record ((key?.getD .invalid, value) :: fields) none :: outer, .separator⟩

/-- The machine behind the end of the innermost list. -/
def closeList? : List Frame → Option Machine
  | .list items :: outer => some (complete outer (.list items.reverse))
  | _ => none

/-- The machine behind the end of the innermost record. -/
def closeRecord? : List Frame → Option Machine
  | .record fields _ :: outer => some (complete outer (.record fields.reverse))
  | _ => none

/-- A string as a node. -/
def ofText (content? : Option String) : Node := content?.elim .invalid .str

/-- **One token.** -/
def step (m : Machine) (t : Token) : Option Machine :=
  match m.due, t with
  | .value _, .openList => some ⟨.list [] :: m.frames, .value true⟩
  | .value _, .openRecord => some ⟨.record [] none :: m.frames, .key true⟩
  | .value _, .text content? => some (complete m.frames (ofText content?))
  | .value _, .scalar value => some (complete m.frames value)
  | .value true, .closeList => closeList? m.frames
  | .key _, .text content? =>
    match m.frames with
    | .record fields _ :: outer => some ⟨.record fields (some (ofText content?)) :: outer, .colon⟩
    | _ => none
  | .key true, .closeRecord => closeRecord? m.frames
  | .colon, .colon => some ⟨m.frames, .value false⟩
  | .separator, .comma =>
    match m.frames with
    | .list _ :: _ => some ⟨m.frames, .value false⟩
    | .record _ _ :: _ => some ⟨m.frames, .key false⟩
    | [] => none
  | .separator, .closeList => closeList? m.frames
  | .separator, .closeRecord => closeRecord? m.frames
  | _, _ => none

/-- The document, once it is complete. -/
def document? (m : Machine) : Option Node :=
  match m.due with
  | .nothing document => some document
  | _ => none

end Machine

/-- How deep lists and records may be nested. -/
def maxDepth : Nat := 127

/-- **The document of a text.** -/
def read? (s : String) : Option Node := do
  let machine ← (← tokens? s.toList).foldlM Machine.step Machine.start
  let document ← machine.document?
  if document.depth ≤ maxDepth then return document else none

end PulseControl.Json
