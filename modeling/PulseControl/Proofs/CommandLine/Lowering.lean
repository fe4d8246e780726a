import PulseControl.CommandLine.Report
import PulseControl.Proofs.Except
import PulseControl.Proofs.Schedule.Along
import PulseControl.Proofs.StandardGates.Declared

/-!
# What the command that lowers a program does

A command prints and can fail at any of its steps. If it succeeds all of them have, and what it saves is made
of what they gave: the calls of the program were run one after the other, and all of them succeeded, and the
report is on the schedule that they left.

* `PulseControl.CommandLine.Script.bind_eq_ok` – a script that succeeds step by step;
* `PulseControl.CommandLine.runProgram_eq_ok` – the schedule of a program whose calls all succeed;
* `PulseControl.CommandLine.render_eq_ok` – the samples that a report is given;
* `PulseControl.CommandLine.ProgramSchedule` – the schedule of a program file;
* `PulseControl.CommandLine.lowerProgram_eq_ok` – what is saved, and what it is made of;
* `PulseControl.CommandLine.gives_lowerProgram` – when the command succeeds.
-/

namespace PulseControl.CommandLine

/-! ### Scripts that succeed -/

namespace Script

variable {τ σ : Type} {printed output : String}

/-- **Two scripts one after the other** succeed if both do. -/
theorem bind_eq_ok {x : Script τ} {f : τ → Script σ} {b : σ} :
    (x >>= f).run printed = (.ok b, output) ↔
      ∃ a between, x.run printed = (.ok a, between) ∧ (f a).run between = (.ok b, output) := by
  have hrun : (x >>= f).run printed = match x.run printed with
      | (.ok a, between) => (f a).run between
      | (.error e, between) => (.error e, between) := by
    change (ExceptT.run x >>= fun outcome => ExceptT.bindCont f outcome) printed = _
    change (let r := x.run printed; ExceptT.bindCont f r.1 r.2) = _
    cases x.run printed with
    | mk outcome between =>
      cases outcome with
      | ok a => rfl
      | error e => rfl
  rw [hrun]
  cases hx : x.run printed with
  | mk outcome between =>
    cases outcome with
    | ok a =>
      refine ⟨fun h => ⟨a, between, rfl, h⟩, ?_⟩
      rintro ⟨_, _, hsame, h⟩
      cases hsame
      exact h
    | error e =>
      refine ⟨fun h => (nomatch h), ?_⟩
      rintro ⟨_, _, hsame, -⟩
      cases hsame

theorem pure_eq_ok {a b : τ} :
    (pure a : Script τ).run printed = (.ok b, output) ↔ a = b ∧ printed = output := by
  change ((Except.ok a, printed) : Except (List String) τ × String) = _ ↔ _
  simp

theorem run_printLine (line : String) :
    (printLine line).run printed = (.ok (), printed ++ (line ++ "\n")) :=
  rfl

theorem within_eq_ok {context : List String} {r : Except (GateError Float) τ} {a : τ} :
    (within context r).run printed = (.ok a, output) ↔ r = .ok a ∧ printed = output := by
  cases r with
  | ok b => exact pure_eq_ok.trans (by simp)
  | error e => exact ⟨fun h => (nomatch h), fun h => (nomatch h.1)⟩

/-- **A script gives a result** whatever has been printed before. -/
def Gives (x : Script τ) (a : τ) : Prop := ∀ printed, ∃ output, x.run printed = (.ok a, output)

theorem gives_pure (a : τ) : Gives (pure a) a := fun printed => ⟨printed, rfl⟩

theorem gives_printLine (line : String) : Gives (printLine line) () := fun _ => ⟨_, rfl⟩

theorem gives_within {context : List String} {r : Except (GateError Float) τ} {a : τ} (h : r = .ok a) :
    Gives (within context r) a := fun printed => ⟨printed, within_eq_ok.mpr ⟨h, rfl⟩⟩

theorem Gives.bind {x : Script τ} {f : τ → Script σ} {a : τ} {b : σ} (hx : Gives x a)
    (hf : Gives (f a) b) : Gives (x >>= f) b := by
  intro printed
  obtain ⟨between, hbetween⟩ := hx printed
  obtain ⟨output, houtput⟩ := hf between
  exact ⟨output, bind_eq_ok.mpr ⟨a, between, hbetween, houtput⟩⟩

/-- Lines are printed without fail. -/
theorem gives_printLines (lines : List String) :
    Gives (forIn lines PUnit.unit fun line _ => do
      printLine line
      pure (ForInStep.yield PUnit.unit)) PUnit.unit := by
  induction lines with
  | nil => exact gives_pure _
  | cons line lines ih =>
    rw [List.forIn_cons]
    exact Gives.bind (a := ForInStep.yield PUnit.unit) ((gives_printLine line).bind (gives_pure _)) ih

end Script

open Script

/-! ### The command -/

/-- **The schedule of a program** whose calls all succeed: they are run one after the other. -/
theorem runProgram_eq_ok {lowerer : Lowerer Float} {n : Nat} {s s' : Schedule Float}
    {program : List (GateCall Float)} (h : runProgram lowerer n s program = .ok s') :
    s' = s.runEach (program.map (lowerer, ·)) := by
  induction program generalizing n s with
  | nil => exact (Except.ok.inj h).symm
  | cons call program ih =>
    rw [runProgram] at h
    split at h
    · next t hrun =>
      rw [ih h]
      exact congrArg (Schedule.runEach · _) (congrArg Prod.snd hrun).symm
    · exact nomatch h

/-- A program whose first call succeeds. -/
theorem runProgram_cons {lowerer : Lowerer Float} {n k : Nat} {s t : Schedule Float}
    {call : GateCall Float} {program : List (GateCall Float)} (h : s.run lowerer call = (.ok k, t)) :
    runProgram lowerer n s (call :: program) = runProgram lowerer (n + 1) t program := by
  rw [runProgram, h]

variable {printed output : String}

/-- **The samples that a report is given** are those of the rendered channels. -/
theorem render_eq_ok {s : Schedule Float} {rate : Float} {channels : SampleReport} :
    (render s (some rate)).run printed = (.ok channels, output) ↔
      ∃ rendered, s.buffers.render (β := Float) rate s.ledger.endTime = .ok rendered ∧
        channels = channelSamples rate rendered ∧
        output = printed ++ ("  Rendered " ++ toString rendered.length ++ " channels at " ++
          Decimal.NumberStyle.plain.write rate ++ " Sa/s" ++ "\n") := by
  rw [render]
  constructor
  · intro h
    obtain ⟨rendered, _, hwithin, h⟩ := bind_eq_ok.mp h
    obtain ⟨hrendered, rfl⟩ := within_eq_ok.mp hwithin
    obtain ⟨_, _, hprint, h⟩ := bind_eq_ok.mp h
    cases hprint
    obtain ⟨rfl, rfl⟩ := pure_eq_ok.mp h
    exact ⟨rendered, hrendered, rfl, rfl⟩
  · rintro ⟨rendered, hrendered, rfl, rfl⟩
    exact bind_eq_ok.mpr ⟨_, _, within_eq_ok.mpr ⟨hrendered, rfl⟩,
      bind_eq_ok.mpr ⟨_, _, run_printLine _, pure_eq_ok.mpr ⟨rfl, rfl⟩⟩⟩

/-- **The schedule of a program file**, all calls of which succeed. -/
def ProgramSchedule (files : Files) (calibration? : Option String) (input : String)
    (options : LoweringOptions) (s : Schedule Float) : Prop :=
  ∃ program registry calibration, ∃ start loaded read : String,
    (loadProgram files input).run start = (.ok program, loaded) ∧
    StandardGates.registry = .ok registry ∧
    (loadCalibration files calibration?).run loaded = (.ok calibration, read) ∧
    runProgram ⟨registry, calibration.overrides, options⟩ 1 (.ofLedger ∅) program = .ok s

/-- It is one of calls of the library that are run one after the other. -/
theorem ProgramSchedule.exists_runs {files : Files} {calibration? : Option String} {input : String}
    {options : LoweringOptions} {s : Schedule Float}
    (h : ProgramSchedule files calibration? input options s) :
    ∃ runs, (∀ run ∈ runs, StandardGates.Extended run.1.registry) ∧
      s = (Schedule.ofLedger ∅).runEach runs := by
  obtain ⟨program, registry, calibration, _, _, _, -, hregistry, -, hs⟩ := h
  exact ⟨_, List.forall_mem_map.mpr fun _ _ => StandardGates.extended_of_registry hregistry,
    runProgram_eq_ok hs⟩

variable {files : Files} {calibration? : Option String} {input path : String} {request : LowerRequest}

/-- There is only one. -/
theorem ProgramSchedule.unique {options : LoweringOptions} {program : List (GateCall Float)}
    {registry : Registry Float} {s s' : Schedule Float} (h : ProgramSchedule files none input options s)
    (hprogram : loadProgram files input = pure program) (hregistry : StandardGates.registry = .ok registry)
    (hs' : runProgram ⟨registry, (∅ : Calibration Float).overrides, options⟩ 1 (.ofLedger ∅) program =
      .ok s') : s = s' := by
  obtain ⟨_, _, _, _, _, _, hprogram', hregistry', hcalibration, hs⟩ := h
  rw [hprogram] at hprogram'
  obtain ⟨rfl, -⟩ := pure_eq_ok.mp hprogram'
  obtain ⟨rfl, -⟩ := pure_eq_ok.mp hcalibration
  obtain rfl := Except.ok.inj (hregistry'.symm.trans hregistry)
  exact Except.ok.inj (hs.symm.trans hs')

/-- **A lowering that succeeds, with a file for the report,** saves the report on the schedule of the
program. -/
theorem lowerProgram_eq_ok {save? : Option Save} (hpath : request.output? = some path)
    (h : (lowerProgram files calibration? input request).run printed = (.ok save?, output)) :
    ∃ s channels content, ∃ described shown : String,
      ProgramSchedule files calibration? input request.lowering s ∧
      (render s request.sampleRate?).run described = (.ok channels, shown) ∧
      (reportText path (report s channels)).run shown = (.ok content, output) ∧
      save? = some ⟨path, content⟩ := by
  rw [lowerProgram] at h
  obtain ⟨_, start, -, h⟩ := bind_eq_ok.mp h
  obtain ⟨program, loaded, hprogram, h⟩ := bind_eq_ok.mp h
  obtain ⟨registry, _, hlibrary, h⟩ := bind_eq_ok.mp h
  obtain ⟨hregistry, rfl⟩ := within_eq_ok.mp hlibrary
  obtain ⟨calibration, read, hcalibration, h⟩ := bind_eq_ok.mp h
  obtain ⟨_, _, -, h⟩ := bind_eq_ok.mp h
  dsimp only at h
  split at h
  · exact nomatch h
  · next s hs =>
    obtain ⟨_, described, -, h⟩ := bind_eq_ok.mp h
    obtain ⟨channels, shown, hchannels, h⟩ := bind_eq_ok.mp h
    rw [hpath] at h
    obtain ⟨content, _, hcontent, h⟩ := bind_eq_ok.mp h
    obtain ⟨rfl, rfl⟩ := pure_eq_ok.mp h
    exact ⟨s, channels, content, described, shown,
      ⟨program, registry, calibration, start, loaded, read, hprogram, hregistry, hcalibration, hs⟩,
      hchannels, hcontent, rfl⟩

/-- **A lowering succeeds** if the program is read, all its calls succeed and all channels are rendered. -/
theorem gives_lowerProgram {program : List (GateCall Float)} {registry : Registry Float}
    {s : Schedule Float} {rate : Float} {rendered : List (Channel × RenderedChannel Float)}
    {text : Datum → String} (hprogram : loadProgram files input = pure program)
    (hregistry : StandardGates.registry = .ok registry)
    (hs : runProgram ⟨registry, (∅ : Calibration Float).overrides, request.lowering⟩ 1 (.ofLedger ∅)
      program = .ok s)
    (hrate : request.sampleRate? = some rate)
    (hrendered : s.buffers.render (β := Float) rate s.ledger.endTime = .ok rendered)
    (hpath : request.output? = some path) (htext : ∀ d, reportText path d = pure (text d)) :
    Gives (lowerProgram files none input request)
      (some ⟨path, text (report s (channelSamples rate rendered))⟩) := by
  have hrender : Gives (render s (some rate)) (channelSamples rate rendered) :=
    fun printed => ⟨_, render_eq_ok.mpr ⟨rendered, hrendered, rfl, rfl⟩⟩
  have hsaved : Gives (do return some ⟨path, ← reportText path (report s (channelSamples rate rendered))⟩)
      (some (Save.mk path (text (report s (channelSamples rate rendered))))) := by
    rw [htext]
    exact (gives_pure _).bind (gives_pure _)
  refine (gives_printLine _).bind (Gives.bind (a := program) (hprogram ▸ gives_pure program) ?_)
  refine (gives_within hregistry).bind ((gives_pure ∅).bind ((gives_printLine _).bind ?_))
  dsimp only
  rw [hs, hrate, hpath]
  exact (gives_printLines (summary s)).bind (hrender.bind hsaved)

end PulseControl.CommandLine
