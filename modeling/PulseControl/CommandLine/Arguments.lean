import PulseControl.Decimal.Reading
import PulseControl.Lowering.Plan
import PulseControl.Text.Integer

/-!
# Arguments of the command line

The program takes a command with options and operands of its own. The options that every command shares
can also stand in front of it. A short option can be one of several in one argument, and the value of an
option is the next argument or the rest of its own.

* `PulseControl.CommandLine.Command` – the commands;
* `PulseControl.CommandLine.Level.scan` – the options and operands of one part of the arguments;
* `PulseControl.CommandLine.parse` – the command that the arguments ask for.
-/

namespace PulseControl.CommandLine

/-! ### Commands -/

/-- How a program is lowered and what becomes of it. -/
structure LowerRequest where
  lowering : LoweringOptions
  /-- The rate at which channels are sampled, if they are. -/
  sampleRate? : Option Float
  /-- The file that the report goes to, if there is one. -/
  output? : Option String

/-- The commands of the program. -/
inductive Command where
  /-- The gates of the library whose names contain a text. -/
  | gates (filter? : Option String)
  /-- The parameters of a gate on some qubits, in a format. -/
  | params (gate : String) (qualifier? : Option String) (qubits : List String) (format : String)
  /-- The lowering of a program file. -/
  | lower (input : String) (request : LowerRequest)

/-- A command and the calibration file it is to use. -/
structure Invocation where
  command : Command
  calibration? : Option String

/-- The reasons for which no command is run. -/
inductive Stop where
  /-- The arguments ask for help. -/
  | help
  /-- The arguments ask for the version. -/
  | version
  /-- The arguments make no sense. -/
  | misuse
  deriving DecidableEq, Repr

/-! ### Options -/

/-- What an option does. -/
inductive OptionKind where
  /-- It is there or not. -/
  | flag
  /-- It can be there any number of times. -/
  | counter
  /-- It has a value that passes a check. -/
  | value (accepts : String → Bool)
  /-- It ends the program at once. -/
  | stop (reason : Stop)

/-- An option. -/
structure OptionSpec where
  short? : Option Char
  long : String
  kind : OptionKind

/-- A part of the arguments: the options that it knows, the commands that can end it and the number of
operands that it takes, if that is bounded. -/
structure Level where
  options : List OptionSpec
  commands : List String
  operandLimit? : Option Nat

/-- What was found in a part of the arguments. -/
structure Scan where
  /-- The options by their long names, with their values. -/
  given : List (String × String)
  operands : List String
  /-- The command that ended the part, and the arguments behind it. -/
  command? : Option (String × List String)

namespace Scan

/-- Nothing found. -/
def empty : Scan := ⟨[], [], none⟩

/-- The value of an option. -/
def value? (s : Scan) (long : String) : Option String := s.given.lookup long

/-- Whether an option was given. -/
def has (s : Scan) (long : String) : Bool := (s.value? long).isSome

/-- One option more. Only counters can be repeated. -/
def add (s : Scan) (o : OptionSpec) (value : String) : Except Stop Scan :=
  let added : Scan := { s with given := s.given ++ [(o.long, value)] }
  match o.kind with
  | .stop reason => .error reason
  | .counter => .ok added
  | .flag => if s.has o.long then .error .misuse else .ok added
  | .value accepts => if s.has o.long || !accepts value then .error .misuse else .ok added

end Scan

namespace OptionSpec

/-- Whether an option has a value. -/
def hasValue (o : OptionSpec) : Bool :=
  match o.kind with
  | .value _ => true
  | _ => false

end OptionSpec

namespace Level

/-- The option of a long name. -/
def ofLong? (l : Level) (name : String) : Option OptionSpec :=
  l.options.find? fun o => o.long = name

/-- The option of a letter. -/
def ofShort? (l : Level) (c : Char) : Option OptionSpec :=
  l.options.find? fun o => o.short? = some c

/-- Whether an argument can be a value that stands by itself. -/
def isBareValue (a : String) : Bool := a = "-" || !a.startsWith "-"

/-- An operand more. -/
def operand (l : Level) (s : Scan) (a : String) : Except Stop Scan :=
  if l.operandLimit?.all (s.operands.length < ·) then
    .ok { s with operands := s.operands ++ [a] }
  else .error .misuse

/-- A long option without its dashes, which is a name or a name and a value. The outcome tells also
whether the value is still to come. -/
def long (l : Level) (s : Scan) (text : List Char) : Except Stop (Scan × Option OptionSpec) :=
  let name := String.ofList (text.takeWhile (· ≠ '='))
  match l.ofLong? name, text.dropWhile (· ≠ '=') with
  | none, _ => .error .misuse
  | some o, '=' :: value =>
    if o.hasValue then (s.add o (String.ofList value)).map fun s => (s, none) else .error .misuse
  | some o, _ => if o.hasValue then .ok (s, some o) else (s.add o "").map fun s => (s, none)

/-- Short options without their dash. The outcome tells also which of them still needs its value. -/
def shorts (l : Level) (s : Scan) : List Char → Except Stop (Scan × Option OptionSpec)
  | [] => .ok (s, none)
  | c :: cs =>
    match l.ofShort? c with
    | none => .error .misuse
    | some o =>
      if o.hasValue then
        match cs with
        | [] => .ok (s, some o)
        | '=' :: value => (s.add o (String.ofList value)).map fun s => (s, none)
        | value => (s.add o (String.ofList value)).map fun s => (s, none)
      else do shorts l (← s.add o "") cs

/-- **The options and operands** of a part of the arguments. `pending?` is an option whose value comes
next. -/
def scan (l : Level) : Option OptionSpec → Scan → List String → Except Stop Scan
  | none, s, [] => .ok s
  | some _, _, [] => .error .misuse
  | some o, s, a :: rest =>
    if isBareValue a then do scan l none (← s.add o a) rest else .error .misuse
  | none, s, a :: rest =>
    match a.toList with
    | ['-', '-'] => rest.foldlM (l.operand) s
    | '-' :: '-' :: text => do
      let (s, pending?) ← l.long s text
      scan l pending? s rest
    | '-' :: c :: text => do
      let (s, pending?) ← l.shorts s (c :: text)
      scan l pending? s rest
    | _ =>
      if l.commands.contains a then .ok { s with command? := some (a, rest) }
      else do scan l none (← l.operand s a) rest

end Level

/-! ### The arguments of the program -/

/-- Any value will do. -/
def anyText : OptionKind := .value fun _ => true

/-- The options that can stand anywhere. -/
def sharedOptions : List OptionSpec :=
  [⟨some 'v', "verbose", .counter⟩, ⟨some 'c', "calibration", anyText⟩,
    ⟨some 'h', "help", .stop .help⟩]

/-- The part in front of the command. -/
def topLevel : Level where
  options := ⟨some 'V', "version", .stop .version⟩ :: sharedOptions
  commands := ["gates", "params", "lower", "help"]
  operandLimit? := some 0

/-- The part behind the command `gates`. -/
def gatesLevel : Level where
  options := ⟨some 'f', "filter", anyText⟩ :: sharedOptions
  commands := []
  operandLimit? := some 0

/-- The part behind the command `params`. -/
def paramsLevel : Level where
  options := ⟨some 't', "type", anyText⟩ :: ⟨none, "format", anyText⟩ :: sharedOptions
  commands := []
  operandLimit? := none

/-- A depth that can be given. -/
def readDepth? (s : String) : Option Nat :=
  match readInteger 10 0 (UInt64.size - 1) s with
  | .ok n => some n.toNat
  | .error _ => none

/-- The part behind the command `lower`. -/
def lowerLevel : Level where
  options :=
    ⟨some 'o', "output", anyText⟩ :: ⟨none, "max-depth", .value fun s => (readDepth? s).isSome⟩ ::
      ⟨none, "no-expansions", .flag⟩ ::
      ⟨none, "sample-rate", .value fun s => (Decimal.read? s).isSome⟩ :: sharedOptions
  commands := []
  operandLimit? := some 1

/-- The command of the part behind its name. -/
def commandOf (name : String) (args : List String) : Except Stop (Command × Scan) :=
  if name = "gates" then do
    let s ← gatesLevel.scan none .empty args
    return (.gates (s.value? "filter"), s)
  else if name = "params" then do
    let s ← paramsLevel.scan none .empty args
    match s.operands with
    | gate :: qubit :: qubits =>
      let format := (s.value? "format").getD "table"
      return (.params gate (s.value? "type") (qubit :: qubits) format, s)
    | _ => throw .misuse
  else do
    let s ← lowerLevel.scan none .empty args
    match s.operands with
    | input :: _ =>
      let maxDepth := ((s.value? "max-depth").bind readDepth?).getD defaultMaxDepth
      let request : LowerRequest := {
        lowering := ⟨maxDepth, !s.has "no-expansions"⟩
        sampleRate? := (s.value? "sample-rate").bind Decimal.read?
        output? := s.value? "output" }
      return (.lower input request, s)
    | [] => throw .misuse

/-- Whether help can be asked for by the command `help`: about the program, or about one command. -/
def isHelpTopic : List String → Bool
  | [] => true
  | [name] => topLevel.commands.contains name
  | _ => false

/-- **The command that the arguments ask for.** A calibration file can be named behind the command, in
front of it or by the environment, in this order. -/
def parse (environment? : Option String) (args : List String) : Except Stop Invocation := do
  let top ← topLevel.scan none .empty args
  match top.command? with
  | none => throw .misuse
  | some (name, rest) =>
    if name = "help" then throw (if isHelpTopic rest then .help else .misuse)
    let (command, s) ← commandOf name rest
    return {
      command := command
      calibration? :=
        (s.value? "calibration").or ((top.value? "calibration").or environment?) }

end PulseControl.CommandLine
