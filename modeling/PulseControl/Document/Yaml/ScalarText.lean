import PulseControl.Text.Integer

/-!
# The text of YAML scalars

A scalar can run over several lines. Outside blocks the lines are folded: a line break between two words
counts as a blank, and every empty line between them as one line break. All functions here take the text
from where the scalar starts and give what it says together with the text behind it. Line breaks are
single characters.

* `PulseControl.Yaml.plain?`, `PulseControl.Yaml.singleQuoted?`, `PulseControl.Yaml.doubleQuoted?` – scalars
  that are folded;
* `PulseControl.Yaml.blockScalar?` – scalars that are a block of lines.
-/

namespace PulseControl.Yaml

/-! ### Characters -/

/-- A blank within a line. -/
def isBlank (c : Char) : Bool := c = ' ' || c = '\t'

/-- A blank or a line break. -/
def isSpace (c : Char) : Bool := isBlank c || c = '\n'

/-- Whether a text starts with a blank or line break, or is at its end. -/
def startsBlank : List Char → Bool
  | [] => true
  | c :: _ => isSpace c

/-- The characters that separate the items of lists and records within a line. -/
def isFlowMark (c : Char) : Bool := c = ',' || c = '[' || c = ']' || c = '\x7b' || c = '\x7d'

/-- Whether a line starts with the mark of a document. -/
def atDocumentMark : List Char → Bool
  | '-' :: '-' :: '-' :: cs => startsBlank cs
  | '.' :: '.' :: '.' :: cs => startsBlank cs
  | _ => false

/-! ### Folding -/

/-- What stands between two words. -/
inductive Gap where
  /-- Nothing, so they are one word. -/
  | none
  /-- Blanks. -/
  | blanks (reversed : List Char)
  /-- A line break and a number of empty lines. -/
  | breaks (emptyLines : Nat)
  /-- A line break that does not count and a number of empty lines. -/
  | joined (emptyLines : Nat)

namespace Gap

/-- What a gap says. -/
def text : Gap → List Char
  | .none => []
  | .blanks reversed => reversed.reverse
  | .breaks 0 => [' ']
  | .breaks (n + 1) => List.replicate (n + 1) '\n'
  | .joined n => List.replicate n '\n'

/-- Whether the words are on different lines. -/
def isBroken : Gap → Bool
  | .breaks _ | .joined _ => true
  | _ => false

/-- The gap with a blank more; blanks at the start of a line do not count. -/
def blank (g : Gap) (c : Char) : Gap :=
  match g with
  | .none => .blanks [c]
  | .blanks reversed => .blanks (c :: reversed)
  | g => g

/-- The gap with a line break more; blanks at the end of a line do not count. -/
def lineBreak (g : Gap) : Gap :=
  match g with
  | .breaks n => .breaks (n + 1)
  | .joined n => .joined (n + 1)
  | _ => .breaks 0

/-- Whether there is any gap. -/
def isOpen : Gap → Bool
  | .none => false
  | _ => true

end Gap

/-! ### Scalars without quotes -/

/-- Whether a character ends a scalar without quotes. -/
def endsPlain (flow : Bool) (c : Char) (rest : List Char) : Bool :=
  (c = ':' && startsBlank rest) || (flow && isFlowMark c)

/-- Whether a colon stands where it must not within a line of lists and records. -/
def misplacedColon (flow : Bool) (c : Char) (rest : List Char) : Bool :=
  flow && c = ':' && rest.head?.any fun d => isFlowMark d || d = '?'

/-- A scalar that has been cut off the text. -/
structure Cut where
  chars : List Char
  /-- Whether the scalar is followed by a line break. -/
  lineEnded : Bool
  rest : List Char

/-- The scalar with something in front. -/
def Cut.prepend (front : List Char) (c : Cut) : Cut := { c with chars := front ++ c.chars }

/-- **A scalar without quotes**, from a word at some column of its line on. Its lines after the first
are indented by `indent` at least, unless it stands within a list or record in one line. -/
def plain? (flow : Bool) (indent : Nat) : Nat → Gap → List Char → Option Cut
  | _, gap, [] => some ⟨[], gap.isBroken, []⟩
  | column, gap, c :: cs =>
    if isBlank c then
      if gap.isBroken && column < indent && c = '\t' then none
      else plain? flow indent (column + 1) (gap.blank c) cs
    else if c = '\n' then plain? flow indent 0 gap.lineBreak cs
    else if (gap.isOpen && (c = '#' || (!flow && column < indent))) ||
        (column = 0 && atDocumentMark (c :: cs)) then
      some ⟨[], gap.isBroken, c :: cs⟩
    else if misplacedColon flow c cs then none
    else if endsPlain flow c cs then some ⟨[], gap.isBroken, c :: cs⟩
    else (plain? flow indent (column + 1) .none cs).map (Cut.prepend (gap.text ++ [c]))

/-! ### Scalars in quotes -/

/-- A scalar and the text behind it, the scalar with something in front. -/
def prepend (front : List Char) (p : List Char × List Char) : List Char × List Char :=
  (front ++ p.1, p.2)

/-- **A scalar in single quotes**, from behind the opening quote. A quote is written twice. -/
def singleQuoted? : Nat → Gap → List Char → Option (List Char × List Char)
  | _, _, [] => none
  | column, gap, '\'' :: '\'' :: cs =>
    (singleQuoted? (column + 2) .none cs).map (prepend (gap.text ++ ['\'']))
  | _, gap, '\'' :: cs => some (gap.text, cs)
  | column, gap, c :: cs =>
    if column = 0 && atDocumentMark (c :: cs) then none
    else if isBlank c then singleQuoted? (column + 1) (gap.blank c) cs
    else if c = '\n' then singleQuoted? 0 gap.lineBreak cs
    else (singleQuoted? (column + 1) .none cs).map (prepend (gap.text ++ [c]))

/-- What a short escape stands for. -/
def shortEscape? (c : Char) : Option Char :=
  match c with
  | '0' => some (Char.ofNat 0)
  | 'a' => some (Char.ofNat 7)
  | 'b' => some (Char.ofNat 8)
  | 't' | '\t' => some '\t'
  | 'n' => some '\n'
  | 'v' => some (Char.ofNat 11)
  | 'f' => some (Char.ofNat 12)
  | 'r' => some '\r'
  | 'e' => some (Char.ofNat 27)
  | ' ' => some ' '
  | '"' => some '"'
  | '/' => some '/'
  | '\\' => some '\\'
  | 'N' => some (Char.ofNat 0x85)
  | '_' => some (Char.ofNat 0xA0)
  | 'L' => some (Char.ofNat 0x2028)
  | 'P' => some (Char.ofNat 0x2029)
  | _ => none

/-- The character of a number in base 16. -/
def numbered? (ds : List Char) : Option Char := do
  let n ← ds.foldlM (fun n d => (digitValue? 16 d).map (16 * n + ·)) 0
  if n.isValidChar then return Char.ofNat n else none

/-- **A scalar in double quotes**, from behind the opening quote. -/
def doubleQuoted? : Nat → Gap → List Char → Option (List Char × List Char)
  | _, _, [] => none
  | _, gap, '"' :: cs => some (gap.text, cs)
  | _, gap, '\\' :: '\n' :: cs =>
    (doubleQuoted? 0 (.joined 0) cs).map (prepend gap.text)
  | column, gap, '\\' :: 'x' :: a :: b :: cs => do
    let c ← numbered? [a, b]
    (doubleQuoted? (column + 4) .none cs).map (prepend (gap.text ++ [c]))
  | column, gap, '\\' :: 'u' :: a :: b :: d :: e :: cs => do
    let c ← numbered? [a, b, d, e]
    (doubleQuoted? (column + 6) .none cs).map (prepend (gap.text ++ [c]))
  | column, gap, '\\' :: 'U' :: a :: b :: d :: e :: f :: g :: h :: i :: cs => do
    let c ← numbered? [a, b, d, e, f, g, h, i]
    (doubleQuoted? (column + 10) .none cs).map (prepend (gap.text ++ [c]))
  | column, gap, '\\' :: c :: cs => do
    let c ← shortEscape? c
    (doubleQuoted? (column + 2) .none cs).map (prepend (gap.text ++ [c]))
  | column, gap, c :: cs =>
    if column = 0 && atDocumentMark (c :: cs) then none
    else if isBlank c then doubleQuoted? (column + 1) (gap.blank c) cs
    else if c = '\n' then doubleQuoted? 0 gap.lineBreak cs
    else (doubleQuoted? (column + 1) .none cs).map (prepend (gap.text ++ [c]))

/-! ### Blocks of lines -/

/-- What becomes of the line breaks at the end of a block. -/
inductive Chomp where
  | strip
  | clip
  | keep
  deriving DecidableEq, Repr

/-- The header of a block: what becomes of its end and how far it is indented. -/
structure BlockHeader where
  chomp : Chomp
  indent? : Option Nat

/-- The marks of a header, in either order. -/
def headerMarks? : List Char → Option (BlockHeader × List Char)
  | c :: d :: cs =>
    let chomp? (c : Char) : Option Chomp :=
      if c = '+' then some .keep else if c = '-' then some .strip else none
    match chomp? c with
    | some chomp =>
      if d.isDigit then
        if d = '0' then none else some (⟨chomp, digitValue? 10 d⟩, cs)
      else some (⟨chomp, none⟩, d :: cs)
    | none =>
      if c.isDigit then
        if c = '0' then none
        else
          match chomp? d with
          | some chomp => some (⟨chomp, digitValue? 10 c⟩, cs)
          | none => some (⟨.clip, digitValue? 10 c⟩, d :: cs)
      else some (⟨.clip, none⟩, c :: d :: cs)
  | ['+'] => some (⟨.keep, none⟩, [])
  | ['-'] => some (⟨.strip, none⟩, [])
  | [c] => if c.isDigit then if c = '0' then none else some (⟨.clip, digitValue? 10 c⟩, [])
    else some (⟨.clip, none⟩, [c])
  | [] => some (⟨.clip, none⟩, [])

/-- A text from the next line on, if nothing but blanks and a comment comes before it. -/
def nextLine? (cs : List Char) : Option (List Char) :=
  let cs := cs.dropWhile isBlank
  let cs := if cs.head? = some '#' then cs.dropWhile (· ≠ '\n') else cs
  match cs with
  | [] => some []
  | '\n' :: rest => some rest
  | _ => none

/-- The empty lines in front of a block. -/
structure Margin where
  /-- The greatest column that was met. -/
  widest : Nat
  /-- The number of empty lines. -/
  emptyLines : Nat
  /-- The column of the first text. -/
  column : Nat
  rest : List Char

/-- The empty lines in front of a block whose indentation is not known. -/
def margin? : Nat → Nat → Nat → List Char → Option Margin
  | column, widest, empty, ' ' :: cs => margin? (column + 1) widest empty cs
  | column, widest, empty, '\n' :: cs => margin? 0 (max widest column) (empty + 1) cs
  | _, _, _, '\t' :: _ => none
  | column, widest, empty, cs => some ⟨max widest column, empty, column, cs⟩

/-- A block under way. -/
structure Block where
  /-- Whether line breaks stay. -/
  literal : Bool
  /-- The column at which every line starts. -/
  indent : Nat
  /-- What the block says so far, reversed. -/
  chars : List Char
  /-- Whether the last line has ended. -/
  pendingBreak : Bool
  /-- Whether the last line starts with a blank. -/
  startsBlank : Bool
  /-- The number of empty lines behind it. -/
  emptyLines : Nat

namespace Block

/-- The line break behind the last line, if it has ended. -/
def lastBreak (b : Block) : List Char := if b.pendingBreak then ['\n'] else []

/-- The block where a line with text starts. Line breaks between lines that start with words are
folded unless they stay. -/
def startLine (b : Block) (c : Char) : Block :=
  let folds := !b.literal && b.pendingBreak && !b.startsBlank && !isBlank c
  let join :=
    if folds then if b.emptyLines = 0 then [' '] else []
    else b.lastBreak
  { b with
    chars := c :: (List.replicate b.emptyLines '\n' ++ (join ++ b.chars))
    pendingBreak := false
    startsBlank := isBlank c
    emptyLines := 0 }

/-- What the block says in the end. -/
def finish (b : Block) (chomp : Chomp) : List Char :=
  let tail :=
    match chomp with
    | .strip => []
    | .clip => b.lastBreak
    | .keep => b.lastBreak ++ List.replicate b.emptyLines '\n'
  b.chars.reverse ++ tail

/-- The lines of a block. `column?` is the column within the margin, and there is none within the text
of a line. -/
def lines? : Option Nat → Block → List Char → Option (Block × List Char)
  | _, b, [] => some (b, [])
  | some column, b, c :: cs =>
    if c = ' ' ∧ column < b.indent then lines? (some (column + 1)) b cs
    else if c = '\t' ∧ column < b.indent then none
    else if c = '\n' then lines? (some 0) { b with emptyLines := b.emptyLines + 1 } cs
    else if column = b.indent then lines? none (b.startLine c) cs
    else some (b, c :: cs)
  | none, b, c :: cs =>
    if c = '\n' then lines? (some 0) { b with pendingBreak := true } cs
    else lines? none { b with chars := c :: b.chars } cs

end Block

/-- **A block of lines**, from behind its first mark. Around it the text is indented by `parent`, which is
negative outside lists and records. -/
def blockScalar? (literal : Bool) (parent : Int) (cs : List Char) :
    Option (List Char × List Char) := do
  let (header, cs) ← headerMarks? cs
  let cs ← nextLine? cs
  let start (indent emptyLines : Nat) : Block := ⟨literal, indent, [], false, false, emptyLines⟩
  match header.indent? with
  | some i =>
    let (block, rest) ← Block.lines? (some 0) (start ((max parent 0).toNat + i) 0) cs
    return (block.finish header.chomp, rest)
  | none =>
    let m ← margin? 0 0 0 cs
    let indent := max m.widest (max (parent + 1).toNat 1)
    let (block, rest) ← Block.lines? (some m.column) (start indent m.emptyLines) m.rest
    return (block.finish header.chomp, rest)

end PulseControl.Yaml
