import PulseControl.Document.Lexeme

/-!
# Strings in YAML texts

A string is written without quotes where it reads back as that string. A string that looks like a value of
another type takes single quotes, a string of several lines is a block, and double quotes serve where
nothing else does.

* `PulseControl.Yaml.ScalarStyle`, `PulseControl.Yaml.styleOf` – how a string is written;
* `PulseControl.Yaml.blockHeader`, `PulseControl.Yaml.quoted` – its text.
-/

namespace PulseControl.Yaml

/-- The ways to write a string. -/
inductive ScalarStyle where
  | plain
  | singleQuoted
  | doubleQuoted
  /-- A block of lines whose line breaks stay. -/
  | literal
  deriving DecidableEq, Repr

/-! ### Characters -/

/-- Whether a character is written as it is. -/
def isPrintable (c : Char) : Bool :=
  let n := c.toNat
  n = 0x0A || (0x20 ≤ n && n ≤ 0x7E) || (0xA0 ≤ n && n ≤ 0xFFFD && n ≠ 0xFEFF)

/-- The characters that break lines. -/
def isLineBreak (c : Char) : Bool :=
  let n := c.toNat
  n = 0x0A || n = 0x0D || n = 0x85 || n = 0x2028 || n = 0x2029

/-- Whether a text starts with a blank or line break, or is at its end. -/
def blankAhead : List Char → Bool
  | [] => true
  | c :: _ => c = ' ' || c = '\t' || isLineBreak c || c.toNat = 0

/-- Whether one character stands directly in front of another. -/
def hasPair (first second : Char → Bool) : List Char → Bool
  | c :: d :: cs => (first c && second d) || hasPair first second (d :: cs)
  | _ => false

/-! ### Styles -/

/-- Whether a text holds a mark behind its first character: a colon in front of a blank, or a number sign
behind one. -/
def hasInnerMark (afterBlank : Bool) : List Char → Bool
  | [] => false
  | c :: cs =>
    (c = ':' && blankAhead cs) || (c = '#' && afterBlank) || hasInnerMark (blankAhead [c]) cs

/-- Whether a text would be taken for more than a scalar. -/
def hasMarks : List Char → Bool
  | [] => false
  | c :: cs =>
    (['-', '-', '-'].isPrefixOf (c :: cs) || ['.', '.', '.'].isPrefixOf (c :: cs)) ||
      "#,[]\x7b\x7d&*!|>'\"%@`".toList.contains c ||
      ((c = '?' || c = ':' || c = '-') && blankAhead cs) || hasInnerMark (blankAhead [c]) cs

/-- Whether a text starts or ends with a character of some kind. -/
def hasAtEnds (p : Char → Bool) (cs : List Char) : Bool := cs.head?.any p || cs.getLast?.any p

/-- Whether a text needs escapes. -/
def needsEscapes (cs : List Char) : Bool :=
  !cs.all isPrintable || hasPair (· = ' ') isLineBreak cs

/-- Whether a text can stand without quotes. -/
def allowsPlain (cs : List Char) : Bool :=
  !needsEscapes cs && !cs.any isLineBreak && !hasAtEnds (· = ' ') cs && !hasMarks cs

/-- Whether a text can stand in single quotes. -/
def allowsSingleQuoted (cs : List Char) : Bool :=
  !needsEscapes cs && !hasPair isLineBreak (· = ' ') cs

/-- Whether a text can be a block. -/
def allowsLiteral (cs : List Char) : Bool := !needsEscapes cs && cs.getLast? != some ' '

/-- Whether a text without quotes reads back as a string. -/
def looksLikeString (s : String) : Bool :=
  match Lexeme.meaningOfText s with
  | .str _ => !Lexeme.hasNeedlessZero s
  | _ => false

/-- **How a string is written.** -/
def styleOf (s : String) : ScalarStyle :=
  let cs := s.toList
  if cs.contains '\n' then if allowsLiteral cs then .literal else .doubleQuoted
  else if looksLikeString s && allowsPlain cs then .plain
  else if allowsSingleQuoted cs then .singleQuoted
  else .doubleQuoted

/-! ### Texts -/

/-- A number in base 16 with a given number of digits. -/
def hexText : Nat → Nat → List Char
  | 0, _ => []
  | width + 1, n =>
    let d := n % 16
    hexText width (n / 16) ++ [if d < 10 then Char.ofNat (48 + d) else Char.ofNat (55 + d)]

/-- The letter of a short escape. -/
def escapeLetter? (c : Char) : Option Char :=
  let n := c.toNat
  if n = 0 then some '0'
  else if n = 0x07 then some 'a'
  else if n = 0x08 then some 'b'
  else if n = 0x09 then some 't'
  else if n = 0x0A then some 'n'
  else if n = 0x0B then some 'v'
  else if n = 0x0C then some 'f'
  else if n = 0x0D then some 'r'
  else if n = 0x1B then some 'e'
  else if n = 0x85 then some 'N'
  else if n = 0x2028 then some 'L'
  else if n = 0x2029 then some 'P'
  else none

/-- What stands for a character in double quotes. -/
def escape (c : Char) : List Char :=
  if c = '"' || c = '\\' then ['\\', c]
  else if isPrintable c && !isLineBreak c then [c]
  else
    match escapeLetter? c with
    | some letter => ['\\', letter]
    | none =>
      let n := c.toNat
      if n ≤ 0xFF then '\\' :: 'x' :: hexText 2 n
      else if n ≤ 0xFFFF then '\\' :: 'u' :: hexText 4 n
      else '\\' :: 'U' :: hexText 8 n

/-- A string on one line. -/
def quoted (style : ScalarStyle) (s : String) : String :=
  match style with
  | .plain | .literal => s
  | .singleQuoted =>
    "'" ++ String.ofList (s.toList.flatMap fun c => if c = '\'' then ['\'', '\''] else [c]) ++ "'"
  | .doubleQuoted => "\"" ++ String.ofList (s.toList.flatMap escape) ++ "\""

/-- By how many columns the text of a block is indented. -/
def blockIndent : Nat := 2

/-- The header of a block: how far it is indented, where its first line does not show that, and what
becomes of the line breaks at its end. -/
def blockHeader (s : String) : String :=
  let cs := s.toList
  let hint := if cs.head?.any fun c => c = ' ' || isLineBreak c then toString blockIndent else ""
  let chomp :=
    match cs.reverse with
    | c :: d :: _ => if !isLineBreak c then "-" else if isLineBreak d then "+" else ""
    | [c] => if isLineBreak c then "+" else "-"
    | [] => "-"
  "|" ++ hint ++ chomp

/-- The lines of a text, from some column of a line on whose characters so far are `line`, reversed. A line
break at the end of the text ends its last line. -/
def linesOf (line : List Char) : List Char → List String
  | [] => if line.isEmpty then [] else [String.ofList line.reverse]
  | c :: cs =>
    if c = '\n' then String.ofList line.reverse :: linesOf [] cs else linesOf (c :: line) cs

end PulseControl.Yaml
