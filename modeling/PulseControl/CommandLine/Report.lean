import PulseControl.CommandLine.Arguments
import PulseControl.CommandLine.Script
import PulseControl.Document.Json.Writer
import PulseControl.Schedule

/-!
# The command that lowers a program

The calls of a program are run one after the other on an empty schedule. What has come of them is shown in
short, and in full in a report if a file for it is named.

* `PulseControl.CommandLine.runProgram` – the schedule of a program;
* `PulseControl.CommandLine.channelSamples`, `PulseControl.CommandLine.report` – the report;
* `PulseControl.CommandLine.lowerProgram` – the command.
-/

namespace PulseControl.CommandLine

/-! ### Running a program -/

/-- **The schedule of a program.** The outcome is the first call that fails, with its number, or the
schedule after all calls. -/
def runProgram (lowerer : Lowerer Float) :
    Nat → Schedule Float → List (GateCall Float) →
      Except (Nat × GateCall Float × GateError Float) (Schedule Float)
  | _, s, [] => .ok s
  | n, s, call :: calls =>
    match s.run lowerer call with
    | (.ok _, s) => runProgram lowerer (n + 1) s calls
    | (.error e, _) => .error (n, call, e)

/-! ### What is shown -/

/-- The line about a qubit. -/
def qubitLine (ledger : Ledger Float) (q : Qubit) : String :=
  "  " ++ q ++ " t = " ++ padLeft 12 (timeText (ledger.time q)) ++ "  φ = " ++
    padLeft 8 (Decimal.fixed 4 (ledger.phase q))

/-- The line about a measurement. -/
def measureLine (cbit : UInt32) (task : MeasurementTask Float) : String :=
  "  c[" ++ toString cbit.toNat ++ "] ← " ++ task.qubit ++ " at " ++ timeText task.time ++ " (" ++
    task.signal ++ ")"

/-- The line about what a channel plays. -/
def channelLine (channel : Channel) (waveform : Waveform Float) : String :=
  let window :=
    match waveform.support with
    | some i =>
      if i.lower.isFinite && i.upper.isFinite then timeText i.lower ++ " → " ++ timeText i.upper
      else "unbounded"
    | none => "unbounded"
  "  " ++ channel.text ++ " " ++ window

/-- The lines about a schedule. -/
def summary (s : Schedule Float) : List String :=
  ["✓ Lowering complete",
    "  Result: " ++ toString s.log.length ++ " instructions on " ++ toString s.buffers.size ++
      " channels"] ++
    s.ledger.qubits.map (qubitLine s.ledger) ++
    s.ledger.measures.toList.map (fun m => measureLine m.1 m.2) ++
    s.buffers.toList.map fun b => channelLine b.1 b.2

/-! ### The report -/

/-- The samples of a channel, with their rate. -/
structure ChannelSamples where
  start : Float
  sampleRate : Float
  samples : List Float

/-- The samples of channels by the names of the channels. -/
abbrev SampleReport := Std.ExtTreeMap String ChannelSamples

/-- The samples of rendered channels, by name. -/
def channelSamples (rate : Float) (rendered : List (Channel × RenderedChannel Float)) :
    SampleReport :=
  rendered.foldl (fun m r => m.insert r.1.text ⟨r.2.start, rate, r.2.samples⟩) ∅

/-- The samples of a channel. -/
def ChannelSamples.toDatum (s : ChannelSamples) : Datum :=
  .record [("start", .float s.start), ("sample_rate", .float s.sampleRate),
    ("samples", .floats s.samples)]

/-- **The report on a schedule.** Samples are part of it only if there are any. -/
def report (s : Schedule Float) (channels : SampleReport) : Datum :=
  let qubit (q : Qubit) : Datum :=
    .record [("qubit", .str q), ("time", .float (s.ledger.time q)),
      ("phase", .float (s.ledger.phase q))]
  let sampled : List (String × Datum) :=
    if channels.isEmpty then []
    else [("channels", .record (channels.toList.map fun c => (c.1, c.2.toDatum)))]
  .record ([("instructions", .list (s.log.map Instruction.toDatum)),
    ("qubits", .list (s.ledger.qubits.map qubit)),
    ("measures", .list (s.ledger.measures.toList.map fun m => m.2.toDatum))] ++ sampled)

/-- The text of a report in the format that the extension of its file stands for. -/
def reportText (path : String) (d : Datum) : Script String :=
  let extension := (fileExtension path).toLower
  if extension = "yaml" ∨ extension = "yml" then yamlText d else pure (Json.writeIndented d)

/-! ### The command -/

/-- A file that is to be written. -/
structure Save where
  path : String
  content : String

/-- The samples of all channels, at a rate if there is one. -/
def render (s : Schedule Float) : Option Float → Script SampleReport
  | none => pure ∅
  | some rate => do
    let rendered ←
      within ["Failed to render channel output"] (Buffers.render s.buffers rate s.ledger.endTime)
    printLine ("  Rendered " ++ toString rendered.length ++ " channels at " ++
      Decimal.NumberStyle.plain.write rate ++ " Sa/s")
    return channelSamples rate rendered

/-- **The lowering of a program file.** The outcome is the report, if there is to be one. -/
def lowerProgram (files : Files) (calibration? : Option String) (input : String)
    (request : LowerRequest) : Script (Option Save) := do
  printLine ("→ Lowering " ++ input)
  let program ← loadProgram files input
  let registry ← library
  let calibration ← loadCalibration files calibration?
  printLine ("  Loaded: " ++ toString program.length ++ " calls, " ++ toString calibration.size ++
    " calibration entries")
  let lowerer : Lowerer Float := ⟨registry, calibration.overrides, request.lowering⟩
  match runProgram lowerer 1 (.ofLedger ∅) program with
  | .error (n, call, e) =>
    throw (("Failed to lower call #" ++ toString n ++ " (" ++ call.text ++ ")") :: e.causes)
  | .ok s =>
    for line in summary s do
      printLine line
    let channels ← render s request.sampleRate?
    match request.output? with
    | none => return none
    | some path => return some ⟨path, ← reportText path (report s channels)⟩

end PulseControl.CommandLine
