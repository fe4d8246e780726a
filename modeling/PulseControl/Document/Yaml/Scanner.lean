import PulseControl.Document.Yaml.ScalarText

/-!
# YAML tokens

A text is cut into tokens from left to right. Outside lists and records in one line, the columns at which
tokens start open and close lists and records. Whether a scalar is the key of a record is known only at
the colon behind it, so every place where a key can start is remembered, and the tokens that the key
needs are put in front of it later.

* `PulseControl.Yaml.Token` – the tokens;
* `PulseControl.Yaml.Scanner` – the text that is left and what is remembered of the text before it;
* `PulseControl.Yaml.tokens?` – the tokens of a text.
-/

namespace PulseControl.Yaml

/-- The tokens of YAML. -/
inductive Token where
  /-- The version of the format. -/
  | version
  /-- What a handle of tags stands for. -/
  | tagHandle (handle stem : String)
  | documentStart
  | documentEnd
  | blockListStart
  | blockRecordStart
  | blockEnd
  | flowListStart
  | flowListEnd
  | flowRecordStart
  | flowRecordEnd
  /-- The dash in front of an item. -/
  | blockItem
  /-- The comma behind an item. -/
  | comma
  | key
  | value
  | alias (name : String)
  | anchor (name : String)
  | tag (handle suffix : String)
  | scalar (text : String) (isPlain : Bool)
  deriving DecidableEq, Repr

/-! ### Texts -/

/-- The text with every kind of line break as one character. -/
def unifyBreaks : List Char → List Char
  | '\r' :: '\n' :: cs => '\n' :: unifyBreaks cs
  | c :: cs => (if c = '\r' || c.toNat = 0x85 then '\n' else c) :: unifyBreaks cs
  | [] => []

/-- Whether a character may occur in a text at all. -/
def isAllowed (c : Char) : Bool :=
  c = '\t' || c = '\n' || (0x20 ≤ c.toNat && c.toNat ≤ 0x7E) ||
    (0xA0 ≤ c.toNat && c.toNat ≠ 0xFEFF && c.toNat ≠ 0xFFFE && c.toNat ≠ 0xFFFF)

/-- The characters of a text, without the mark of its byte order, or none if some character is not
allowed. -/
def source? (s : String) : Option (List Char) :=
  let cs := unifyBreaks s.toList
  let cs := if cs.head?.any (·.toNat = 0xFEFF) then cs.tail else cs
  if cs.all isAllowed then some cs else none

/-! ### The scanner -/

/-- A place where a key can start. -/
structure KeyMark where
  /-- The number of tokens in front of it. -/
  position : Nat
  line : Nat
  column : Nat
  offset : Nat
  /-- Whether nothing but a key can start there. -/
  required : Bool

/-- The text that is left and what is remembered of the text before it. -/
structure Scanner where
  rest : List Char
  line : Nat
  column : Nat
  offset : Nat
  /-- The tokens so far, the latest first. -/
  reversed : List Token
  /-- The column of the innermost list or record in a block, or -1. -/
  indent : Int
  /-- The columns of the blocks around it. -/
  outer : List Int
  /-- The place of the latest key that can still come, for the innermost list or record in one line and
  for all those around it. -/
  keys : List (Option KeyMark)
  /-- Whether a key can start here. -/
  keyAllowed : Bool

namespace Scanner

/-- The scanner in front of a text. -/
def start (cs : List Char) : Scanner where
  rest := cs
  line := 0
  column := 0
  offset := 0
  reversed := []
  indent := -1
  outer := []
  keys := [none]
  keyAllowed := true

/-- Whether the scanner is within a list or record in one line. -/
def inFlow (s : Scanner) : Bool := 1 < s.keys.length

/-- The scanner with a token more. -/
def emit (s : Scanner) (t : Token) : Scanner := { s with reversed := t :: s.reversed }

/-- The scanner with a token put behind the first `position` tokens. -/
def insert (s : Scanner) (position : Nat) (t : Token) : Scanner :=
  { s with reversed := s.reversed.insertIdx (s.reversed.length - position) t }

/-- Line and column behind some characters. -/
def advance (place : Nat × Nat) (cs : List Char) : Nat × Nat :=
  cs.foldl (fun p c => if c = '\n' then (p.1 + 1, 0) else (p.1, p.2 + 1)) place

/-- The scanner in front of a text that is left of its own. -/
def moveTo (s : Scanner) (rest : List Char) : Scanner :=
  let passed := s.rest.length - rest.length
  let (line, column) := advance (s.line, s.column) (s.rest.take passed)
  { s with rest := rest, line := line, column := column, offset := s.offset + passed }

/-! #### Keys -/

/-- The scanner without the latest place of a key. A required key must not go. -/
def dropKey? (s : Scanner) : Option Scanner :=
  match s.keys with
  | some k :: keys => if k.required then none else some { s with keys := none :: keys }
  | _ => some s

/-- The scanner that remembers that a key can start here. -/
def saveKey? (s : Scanner) : Option Scanner :=
  if s.keyAllowed then do
    let s ← s.dropKey?
    let mark : KeyMark := {
      position := s.reversed.length
      line := s.line
      column := s.column
      offset := s.offset
      required := !s.inFlow && s.indent = s.column }
    return { s with keys := some mark :: s.keys.tail }
  else some s

/-- How many characters a key may have. -/
def keyLimit : Nat := 1024

/-- Whether the place of a key is on an earlier line or too far back. -/
def isStale (s : Scanner) (k : KeyMark) : Bool := k.line < s.line || k.offset + keyLimit < s.offset

/-- The scanner without the places of keys that cannot come any more. -/
def dropStaleKeys? (s : Scanner) : Option Scanner :=
  let stale (k? : Option KeyMark) : Bool := k?.any s.isStale
  if s.keys.any fun k? => k?.any fun k => k.required && s.isStale k then none
  else some { s with keys := s.keys.map fun k? => if stale k? then none else k? }

/-! #### Blocks -/

/-- The scanner within a list or record that starts at a column, its start put behind the first
`position` tokens. -/
def openBlock (s : Scanner) (column position : Nat) (t : Token) : Scanner :=
  if !s.inFlow && s.indent < column then
    { s.insert position t with indent := column, outer := s.indent :: s.outer }
  else s

/-- The columns around a column and how many blocks end before it. -/
def unwind (column : Int) : Int → List Int → Nat × Int × List Int
  | indent, [] => (0, indent, [])
  | indent, i :: outer =>
    if column < indent then
      let (n, result) := unwind column i outer
      (n + 1, result)
    else (0, indent, i :: outer)

/-- The scanner with all blocks ended that start behind a column. -/
def closeBlocks (s : Scanner) (column : Int) : Scanner :=
  if s.inFlow then s
  else
    let (n, indent, outer) := unwind column s.indent s.outer
    { s with
      reversed := List.replicate n .blockEnd ++ s.reversed
      indent := indent
      outer := outer }

/-! #### Blanks and comments -/

/-- The text from the next token on, and whether a key can start there. -/
def skip (flow : Bool) : Bool → List Char → Bool × List Char
  | keyAllowed, [] => (keyAllowed, [])
  | keyAllowed, c :: cs =>
    if c = ' ' || ((flow || !keyAllowed) && c = '\t') then skip flow keyAllowed cs
    else if c = '\n' then skip flow (keyAllowed || !flow) cs
    else (keyAllowed, c :: cs)

/-- The text behind a comment. -/
def dropComment : List Char → List Char
  | '#' :: cs => cs.dropWhile (· ≠ '\n')
  | cs => cs

/-- The scanner in front of the next token. Every comment has a line of text to itself, so their number
is below that of the characters. -/
def skipAll : Nat → Scanner → Scanner
  | 0, s => s
  | fuel + 1, s =>
    let (keyAllowed, rest) := skip s.inFlow s.keyAllowed s.rest
    let s := { s.moveTo rest with keyAllowed := keyAllowed }
    match s.rest with
    | '#' :: _ => skipAll fuel (s.moveTo (dropComment s.rest))
    | _ => s

/-! #### Tokens -/

/-- The scanner behind a token of `n` characters. -/
def take (s : Scanner) (n : Nat) (t : Token) : Scanner := (s.moveTo (s.rest.drop n)).emit t

/-- The mark of a document. -/
def documentMark? (s : Scanner) (t : Token) : Option Scanner := do
  let s ← (s.closeBlocks (-1)).dropKey?
  return { s.take 3 t with keyAllowed := false }

/-- The start of a list or record in one line. -/
def openFlow? (s : Scanner) (t : Token) : Option Scanner := do
  let s ← s.saveKey?
  return { s.take 1 t with keys := none :: s.keys, keyAllowed := true }

/-- The end of a list or record in one line. -/
def closeFlow? (s : Scanner) (t : Token) : Option Scanner := do
  let s ← s.dropKey?
  let keys := if s.inFlow then s.keys.tail else s.keys
  return { s.take 1 t with keys := keys, keyAllowed := false }

/-- A comma. -/
def comma? (s : Scanner) : Option Scanner := do
  let s ← s.dropKey?
  return { s.take 1 .comma with keyAllowed := true }

/-- The dash in front of an item. -/
def blockItem? (s : Scanner) : Option Scanner := do
  if !s.inFlow && !s.keyAllowed then none
  let s := s.openBlock s.column s.reversed.length .blockListStart
  let s ← s.dropKey?
  return { s.take 1 .blockItem with keyAllowed := true }

/-- The mark of a key. -/
def key? (s : Scanner) : Option Scanner := do
  if !s.inFlow && !s.keyAllowed then none
  let s := s.openBlock s.column s.reversed.length .blockRecordStart
  let s ← s.dropKey?
  return { s.take 1 .key with keyAllowed := !s.inFlow }

/-- The colon in front of a value. If a key can have come before it, the tokens of the key are put in. -/
def value? (s : Scanner) : Option Scanner :=
  match s.keys with
  | some k :: keys =>
    let s := (s.insert k.position .key).openBlock k.column k.position .blockRecordStart
    some { s.take 1 .value with keys := none :: keys, keyAllowed := false }
  | _ =>
    if s.inFlow then some { s.take 1 .value with keyAllowed := false }
    else if !s.keyAllowed then none
    else
      let s := s.openBlock s.column s.reversed.length .blockRecordStart
      some { s.take 1 .value with keyAllowed := true }

/-- The characters of names. -/
def isNameChar (c : Char) : Bool := c.isAlphanum || c = '_' || c = '-'

/-- Whether a name can end in front of a text. -/
def endsName : List Char → Bool
  | [] => true
  | c :: _ => isSpace c || "?:,]\x7d%@`".toList.contains c

/-- An anchor or a reference to one. -/
def name? (s : Scanner) (token : String → Token) : Option Scanner := do
  let s ← s.saveKey?
  let name := (s.rest.drop 1).takeWhile isNameChar
  let rest := (s.rest.drop 1).dropWhile isNameChar
  if name.isEmpty || !endsName rest then none
  return { (s.moveTo rest).emit (token (String.ofList name)) with keyAllowed := false }

/-- The characters of tags. -/
def isTagChar (c : Char) : Bool := isNameChar c || ";/?:@&=+$.!~*'()".toList.contains c

/-- The handle and the suffix of a tag, from behind its first mark, and the text behind it. -/
def splitTag? : List Char → Option (String × String × List Char)
  | '<' :: cs =>
    match cs.dropWhile fun c => isTagChar c || c = ',' || c = '[' || c = ']' with
    | '>' :: rest =>
      let uri := cs.takeWhile fun c => isTagChar c || c = ',' || c = '[' || c = ']'
      if uri.isEmpty then none else some ("", String.ofList uri, rest)
    | _ => none
  | cs =>
    match cs.dropWhile isNameChar with
    | '!' :: r =>
      let suffix := r.takeWhile isTagChar
      if suffix.isEmpty then none
      else
        some ("!" ++ String.ofList (cs.takeWhile isNameChar) ++ "!", String.ofList suffix,
          r.dropWhile isTagChar)
    | _ =>
      let suffix := cs.takeWhile isTagChar
      if suffix.isEmpty then some ("", "!", cs)
      else some ("!", String.ofList suffix, cs.dropWhile isTagChar)

/-- A tag. -/
def tag? (s : Scanner) : Option Scanner := do
  let s ← s.saveKey?
  let (handle, suffix, rest) ← splitTag? (s.rest.drop 1)
  if !(startsBlank rest || (s.inFlow && rest.head? = some ',')) then none
  return { (s.moveTo rest).emit (.tag handle suffix) with keyAllowed := false }

/-- A block of lines. -/
def block? (s : Scanner) (literal : Bool) : Option Scanner := do
  let s ← s.dropKey?
  let (text, rest) ← blockScalar? literal s.indent (s.rest.drop 1)
  return { (s.moveTo rest).emit (.scalar (String.ofList text) false) with keyAllowed := true }

/-- A scalar in quotes. -/
def quoted? (s : Scanner)
    (read? : Nat → Gap → List Char → Option (List Char × List Char)) : Option Scanner := do
  let s ← s.saveKey?
  let (text, rest) ← read? (s.column + 1) .none (s.rest.drop 1)
  return { (s.moveTo rest).emit (.scalar (String.ofList text) false) with keyAllowed := false }

/-- A scalar without quotes. -/
def plain? (s : Scanner) : Option Scanner := do
  let s ← s.saveKey?
  let cut ← Yaml.plain? s.inFlow (s.indent + 1).toNat s.column .none s.rest
  return { (s.moveTo cut.rest).emit (.scalar (String.ofList cut.chars) true) with
    keyAllowed := cut.lineEnded }

/-- The words of a line. -/
def wordsOf (cs : List Char) : List String :=
  (cs.splitBy fun a b => isBlank a == isBlank b).filter (fun w => !w.any isBlank) |>.map String.ofList

/-- The token of a directive. -/
def directiveToken? (line : List Char) : Option Token :=
  match wordsOf (line.takeWhile (· ≠ '#')) with
  | ["YAML", v] => if v = "1.1" || v = "1.2" then some .version else none
  | ["TAG", handle, stem] =>
    if handle.startsWith "!" && handle.endsWith "!" then some (.tagHandle handle stem) else none
  | _ => none

/-- A directive, which has a line to itself. -/
def directive? (s : Scanner) : Option Scanner := do
  let s ← (s.closeBlocks (-1)).dropKey?
  let token ← directiveToken? ((s.rest.drop 1).takeWhile (· ≠ '\n'))
  return { (s.moveTo (s.rest.dropWhile (· ≠ '\n'))).emit token with keyAllowed := false }

/-- The characters that cannot start a scalar without quotes. -/
def isIndicator (c : Char) : Bool := "-?:,[]\x7b\x7d#&*!|>'\"%@`".toList.contains c

/-- Whether a scalar without quotes starts with a text. -/
def startsPlain (flow : Bool) (c : Char) (cs : List Char) : Bool :=
  !(isSpace c || isIndicator c) || (c = '-' && !(cs.head?.any isBlank)) ||
    (!flow && (c = '?' || c = ':') && !startsBlank cs)

/-- **The next token**, from where it starts. -/
def token? (s : Scanner) (c : Char) (cs : List Char) : Option Scanner :=
  if s.column = 0 && c = '%' then s.directive?
  else if s.column = 0 && atDocumentMark (c :: cs) then
    s.documentMark? (if c = '-' then .documentStart else .documentEnd)
  else if c = '[' then s.openFlow? .flowListStart
  else if c = '\x7b' then s.openFlow? .flowRecordStart
  else if c = ']' then s.closeFlow? .flowListEnd
  else if c = '\x7d' then s.closeFlow? .flowRecordEnd
  else if c = ',' then s.comma?
  else if c = '-' && startsBlank cs then s.blockItem?
  else if c = '?' && (s.inFlow || startsBlank cs) then s.key?
  else if c = ':' && (s.inFlow || startsBlank cs) then s.value?
  else if c = '*' then s.name? .alias
  else if c = '&' then s.name? .anchor
  else if c = '!' then s.tag?
  else if c = '|' && !s.inFlow then s.block? true
  else if c = '>' && !s.inFlow then s.block? false
  else if c = '\'' then s.quoted? singleQuoted?
  else if c = '"' then s.quoted? doubleQuoted?
  else if startsPlain s.inFlow c cs then s.plain?
  else none

/-- All tokens, the latest first. Every token but the ends of blocks has a character, so the number of
characters is fuel enough. -/
def run? : Nat → Scanner → Option (List Token)
  | fuel, s => do
    let s ← (skipAll (s.rest.length + 1) s).dropStaleKeys?
    let s := s.closeBlocks s.column
    match s.rest with
    | [] => return (← (s.closeBlocks (-1)).dropKey?).reversed
    | c :: cs =>
      match fuel with
      | 0 => none
      | fuel + 1 => run? fuel (← s.token? c cs)

end Scanner

/-- **The tokens of a text.** -/
def tokens? (s : String) : Option (List Token) := do
  let cs ← source? s
  return (← Scanner.run? (cs.length + 1) (.start cs)).reverse

end PulseControl.Yaml
