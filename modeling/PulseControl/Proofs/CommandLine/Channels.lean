import Mathlib
import PulseControl.Proofs.CommandLine.Lowering
import PulseControl.Proofs.Schedule.RenderErrors
import PulseControl.Proofs.StandardGates.Independence
import PulseControl.Proofs.StandardGates.Pulses

/-!
# The channels of a report

Rendering gives each channel once, and the command prints how many there are. The report, though, holds the
samples by the names of the channels, and of two channels with one name only the last has its samples there.
Channels of the library have one name only if they are coupler lines whose qubits are joined alike, as those
of `A,B` with `C` and of `A` with `B,C`, so that a program has to name a qubit with a comma for its report to
miss a channel.

* `PulseControl.CommandLine.mem_channelEntries` – the entries of a report;
* `PulseControl.CommandLine.ReportsAll` – a report with an entry for every channel;
* `PulseControl.CommandLine.reportsAll_iff` – a report has one exactly if the names of its channels differ;
* `PulseControl.CommandLine.report_misses_joined_channels` – the reports of the command.
-/

namespace PulseControl

/-- The field of a record that has a name. -/
def Datum.field? (name : String) : Datum → Option Datum
  | .record fields => fields.lookup name
  | _ => none

namespace CommandLine

/-! ### Samples by name -/

/-- What a report says of a rendered channel. -/
def entryOf (rate : Float) (r : RenderedChannel Float) : Datum :=
  ChannelSamples.toDatum ⟨r.start, rate, r.samples⟩

/-- The entries of a report on rendered channels. -/
def channelEntries (rate : Float) (rendered : List (Channel × RenderedChannel Float)) :
    List (String × Datum) :=
  (channelSamples rate rendered).toList.map fun e => (e.1, e.2.toDatum)

/-- The names of rendered channels. -/
def channelNames (rendered : List (Channel × RenderedChannel Float)) : List String :=
  rendered.map fun p => p.1.text

/-- **Samples for every rendered channel**, one entry for each under a name of its own. -/
structure ReportsAll (rate : Float) (rendered : List (Channel × RenderedChannel Float))
    (entries : List (String × Datum)) : Prop where
  length : entries.length = rendered.length
  entry : ∀ p ∈ rendered, (p.1.text, entryOf rate p.2) ∈ entries
  distinct : (channelNames rendered).Nodup

variable {rate : Float} {rendered : List (Channel × RenderedChannel Float)} {name : String}

/-- **A name has the samples of the last channel that has it.** -/
theorem getElem?_channelSamples : (channelSamples rate rendered)[name]? =
    (rendered.reverse.find? fun p => p.1.text = name).map fun p => ⟨p.2.start, rate, p.2.samples⟩ := by
  -- from the right, for the last channel is the one that wins
  induction rendered using List.reverseRecOn with
  | nil => rfl
  | append_singleton rendered p ih =>
    rw [channelSamples, List.foldl_concat, ← channelSamples, Std.ExtTreeMap.getElem?_insert, ih,
      List.reverse_concat, List.find?_cons]
    by_cases h : p.1.text = name
    · simp [h]
    · simp [h]

/-- **The entries of a report**: under each name what is said of the last channel that has it. -/
theorem mem_channelEntries {d : Datum} : (name, d) ∈ channelEntries rate rendered ↔
    ∃ before p after, rendered = before ++ p :: after ∧ p.1.text = name ∧ d = entryOf rate p.2 ∧
      ∀ later ∈ after, later.1.text ≠ name := by
  have hentry : (name, d) ∈ channelEntries rate rendered ↔
      ∃ p, (rendered.reverse.find? fun p => p.1.text = name) = some p ∧ d = entryOf rate p.2 := by
    rw [channelEntries, List.mem_map]
    constructor
    · rintro ⟨⟨name', x⟩, hmem, heq⟩
      obtain ⟨rfl, rfl⟩ := Prod.mk.inj heq
      rw [Std.ExtTreeMap.mem_toList_iff_getElem?_eq_some, getElem?_channelSamples] at hmem
      obtain ⟨p, hp, rfl⟩ := Option.map_eq_some_iff.mp hmem
      exact ⟨p, hp, rfl⟩
    · rintro ⟨p, hp, rfl⟩
      refine ⟨(name, ⟨p.2.start, rate, p.2.samples⟩), ?_, rfl⟩
      rw [Std.ExtTreeMap.mem_toList_iff_getElem?_eq_some, getElem?_channelSamples, hp]
      rfl
  rw [hentry]
  constructor
  · rintro ⟨p, hp, rfl⟩
    obtain ⟨hname, after, before, hrev, hafter⟩ := List.find?_eq_some_iff_append.mp hp
    refine ⟨before.reverse, p, after.reverse, ?_, of_decide_eq_true hname, rfl, fun q hq => ?_⟩
    · simpa using congrArg List.reverse hrev
    · simpa using hafter q (List.mem_reverse.mp hq)
  · rintro ⟨before, p, after, rfl, hname, rfl, hafter⟩
    refine ⟨p, List.find?_eq_some_iff_append.mpr ⟨decide_eq_true hname, after.reverse, before.reverse,
      by simp, fun q hq => ?_⟩, rfl⟩
    simpa using hafter q (List.mem_reverse.mp hq)

/-- **The names of the entries are those of the channels**, each of them once. -/
theorem names_channelEntries : ((channelEntries rate rendered).map Prod.fst).Perm
    (channelNames rendered).dedup := by
  have hkeys : (channelEntries rate rendered).map Prod.fst = (channelSamples rate rendered).keys := by
    rw [channelEntries, List.map_map, ← Std.ExtTreeMap.map_fst_toList_eq_keys]
    rfl
  rw [hkeys]
  refine (List.perm_ext_iff_of_nodup Std.ExtTreeMap.nodup_keys (List.nodup_dedup _)).mpr fun name => ?_
  rw [Std.ExtTreeMap.mem_keys, Std.ExtTreeMap.mem_iff_isSome_getElem?, getElem?_channelSamples]
  simp [channelNames]

theorem nodup_channelEntries : ((channelEntries rate rendered).map Prod.fst).Nodup :=
  names_channelEntries.nodup_iff.mpr (List.nodup_dedup _)

/-- There is an entry if there is a channel. -/
theorem channelSamples_isEmpty : (channelSamples rate rendered).isEmpty = rendered.isEmpty := by
  cases rendered with
  | nil => rfl
  | cons p rest =>
    have hfirst : p.1.text ∈ channelSamples rate (p :: rest) := by
      rw [Std.ExtTreeMap.mem_iff_isSome_getElem?, getElem?_channelSamples]
      simp
    exact Std.ExtTreeMap.isEmpty_eq_false_iff.mpr (Std.ExtTreeMap.ne_empty_of_mem hfirst)

/-- **A report has an entry for every channel** exactly if no two channels have one name. -/
theorem reportsAll_iff :
    ReportsAll rate rendered (channelEntries rate rendered) ↔ (channelNames rendered).Nodup := by
  refine ⟨ReportsAll.distinct, fun h => ⟨?_, fun p hp => ?_, h⟩⟩
  · have hlength : ((channelEntries rate rendered).map Prod.fst).length = _ :=
      names_channelEntries.length_eq
    rwa [h.dedup, channelNames, List.length_map, List.length_map] at hlength
  · obtain ⟨before, after, rfl⟩ := List.append_of_mem hp
    refine mem_channelEntries.mpr ⟨before, p, after, rfl, rfl, rfl, fun later hlater => ?_⟩
    have hbehind := (List.nodup_append.mp (by simpa [channelNames] using h)).2.1
    exact fun hsame => (List.nodup_cons.mp hbehind).1 (hsame ▸ List.mem_map_of_mem hlater)

/-- The entries in the report on a schedule. -/
theorem field?_report (s : Schedule Float) :
    (report s (channelSamples rate rendered)).field? "channels" =
      if rendered = [] then none else some (.record (channelEntries rate rendered)) := by
  rw [report, channelSamples_isEmpty]
  cases rendered with
  | nil => rfl
  | cons p rest => rfl

/-! ### Channels with one name -/

/-- **No two channels have one name** exactly if there are no two coupler lines whose qubits are joined
alike. -/
theorem nodup_channelNames_iff (hnodup : (rendered.map Prod.fst).Nodup)
    (hstandard : ∀ c ∈ rendered.map Prod.fst, c.Standard) :
    (channelNames rendered).Nodup ↔
      ∀ c ∈ rendered.map Prod.fst, ∀ d ∈ rendered.map Prod.fst, c.JoinedAlike d → c = d := by
  have hnames : channelNames rendered = (rendered.map Prod.fst).map Channel.text := by
    rw [channelNames, List.map_map]
    rfl
  rw [hnames, List.nodup_map_iff_inj_on hnodup]
  constructor
  · exact fun h c hc d hd hjoined => h c hc d hd hjoined.text_eq
  · intro h c hc d hd hname
    rcases ((hstandard c hc).text_eq_iff (hstandard d hd)).mp hname with heq | hjoined
    · exact heq
    · exact h c hc d hd hjoined

/-- The channels that are rendered for the schedule of a program. -/
theorem rendered_channels {files : Files} {calibration? : Option String} {input : String}
    {options : LoweringOptions} {s : Schedule Float}
    (h : ProgramSchedule files calibration? input options s)
    (hrendered : s.buffers.render (β := Float) rate s.ledger.endTime = .ok rendered) :
    (rendered.map Prod.fst).Nodup ∧ ∀ c ∈ rendered.map Prod.fst, c.Standard := by
  refine ⟨(Buffers.sorted_render hrendered).imp fun hlt heq => ?_, fun c hc => ?_⟩
  · subst heq
    exact nomatch hlt.symm.trans Std.ReflCmp.compare_self
  · obtain ⟨⟨c, r⟩, hmem, rfl⟩ := List.mem_map.mp hc
    obtain ⟨w, hw, -⟩ := Buffers.renderChannel_of_mem hrendered hmem
    obtain ⟨runs, hext, rfl⟩ := h.exists_runs
    exact StandardGates.standard_of_mem_buffers hext
      (Std.ExtTreeMap.mem_iff_isSome_getElem?.mpr (Option.isSome_of_eq_some hw))

/-- **A report misses channels whose qubits are joined alike**, and no others. If a program is lowered with
success, with a rate and a file for the report, then its calls have all succeeded and its channels have been
rendered, each of them once; and what is saved is the report on them. The entries of this report are under
different names, and each is about the last of the channels that have its name. Two channels have one name
exactly if they are coupler lines whose qubits are joined alike. So the report has an entry for every
channel, under a name of its own, exactly if no two channels are such lines, and this is so if no qubit has a
comma in its name. -/
theorem report_misses_joined_channels {files : Files} {calibration? : Option String}
    {input path printed output : String} {request : LowerRequest} {save? : Option Save}
    (hrate : request.sampleRate? = some rate) (hpath : request.output? = some path)
    (h : (lowerProgram files calibration? input request).run printed = (.ok save?, output)) :
    ∃ s rendered content, ∃ shown : String,
      ProgramSchedule files calibration? input request.lowering s ∧
      s.buffers.render (β := Float) rate s.ledger.endTime = .ok rendered ∧
      save? = some ⟨path, content⟩ ∧
      (reportText path (report s (channelSamples rate rendered))).run shown = (.ok content, output) ∧
      (report s (channelSamples rate rendered)).field? "channels" =
        (if rendered = [] then none else some (.record (channelEntries rate rendered))) ∧
      (rendered.map Prod.fst).Nodup ∧ ((channelEntries rate rendered).map Prod.fst).Nodup ∧
      (∀ name d, (name, d) ∈ channelEntries rate rendered ↔
        ∃ before p after, rendered = before ++ p :: after ∧ p.1.text = name ∧
          d = entryOf rate p.2 ∧ ∀ later ∈ after, later.1.text ≠ name) ∧
      (∀ c ∈ rendered.map Prod.fst, ∀ d ∈ rendered.map Prod.fst, c ≠ d →
        (c.text = d.text ↔ c.JoinedAlike d)) ∧
      (ReportsAll rate rendered (channelEntries rate rendered) ↔
        ∀ c ∈ rendered.map Prod.fst, ∀ d ∈ rendered.map Prod.fst, c.JoinedAlike d → c = d) ∧
      ((∀ c ∈ rendered.map Prod.fst, ∀ q ∈ c.qubits, ',' ∉ q.toList) →
        ReportsAll rate rendered (channelEntries rate rendered)) := by
  obtain ⟨s, channels, content, described, shown, hs, hchannels, hcontent, hsave⟩ :=
    lowerProgram_eq_ok hpath h
  rw [hrate] at hchannels
  obtain ⟨rendered, hrendered, rfl, -⟩ := render_eq_ok.mp hchannels
  obtain ⟨hnodup, hstandard⟩ := rendered_channels hs hrendered
  have hall : ReportsAll rate rendered (channelEntries rate rendered) ↔ _ :=
    reportsAll_iff.trans (nodup_channelNames_iff hnodup hstandard)
  refine ⟨s, rendered, content, shown, hs, hrendered, hsave, hcontent, field?_report s, hnodup,
    nodup_channelEntries, fun name d => mem_channelEntries, fun c hc d hd hne => ?_, hall, fun hfree => ?_⟩
  · exact ((hstandard c hc).text_eq_iff (hstandard d hd)).trans (or_iff_right hne)
  · exact hall.mpr fun c hc d _ hjoined => hjoined.eq_of_comma_free (hfree c hc)

end CommandLine

/-! ### Two couplers with one name -/

/-- The pulse of a flux gate without overrides. -/
def FluxPulse.Pulse.byDefault : FluxPulse.Pulse Float := ⟨50e-9, 0.8, 0.8, 0.8, 0, 0, 0, 0⟩

theorem FluxPulse.ofParams_default {params : Params Float}
    (h : ∀ s ∈ schema, params.values[s.name]? = s.default?) :
    Pulse.ofParams params = .ok .byDefault := by
  simp only [schema, List.forall_mem_cons] at h
  obtain ⟨hduration, hamp1, hamp2, hampc, hedge, hbuffer, hphi1, hphi2, -⟩ := h
  rw [Pulse.ofParams, Params.float_of_value "duration" hduration, Params.float_of_value "amp1" hamp1,
    Params.float_of_value "amp2" hamp2, Params.float_of_value "ampc" hampc,
    Params.float_of_value "edge" hedge, Params.float_of_value "buffer" hbuffer,
    Params.float_of_value "phi1" hphi1, Params.float_of_value "phi2" hphi2]
  rfl

namespace CommandLine

open StandardGates

/-- The lowerer of the command if no calibration file is named. -/
def plainLowerer : Lowerer Float := ⟨floatRegistry, (∅ : Calibration Float).overrides, {}⟩

/-- The controlled phase of two qubits. -/
def controlledPhase (a b : Qubit) : GateCall Float := ⟨.plain "CZ", [a, b], []⟩

/-- It plays three flux pulses. -/
theorem run_controlledPhase {a b : Qubit} (hne : a ≠ b) (s : Schedule Float) : ∃ n,
    s.run plainLowerer (controlledPhase a b) =
      (.ok n, s.applyAll (FluxPulse.play .byDefault a b s.ledger)) := by
  have hl : Extended plainLowerer.registry := extended_floatRegistry
  have hmem : ((controlledPhase a b).key, .primitive FluxPulse.schema FluxPulse.procedure) ∈
      definitions (α := Float) := by
    simp [definitions, primitives, controlledPhase]
  have hfits : (FluxPulse.procedure (α := Float)).signature.check (controlledPhase a b) = .ok () :=
    Signature.check_eq_ok.mpr ⟨rfl, by simpa [controlledPhase] using hne, rfl, fun p hp => by
      simp [controlledPhase] at hp⟩
  have hsynthesize : ∀ params : Params Float,
      (∀ s ∈ FluxPulse.schema, params.values[s.name]? = s.default?) →
      FluxPulse.procedure.synthesize (controlledPhase a b) params =
        .ok (.defer (FluxPulse.play .byDefault a b)) := by
    intro params hvalues
    have hsteps : FluxPulse.procedure.synthesize (controlledPhase a b) params =
        (FluxPulse.Pulse.ofParams params >>= fun pulse => .ok (.defer (FluxPulse.play pulse a b))) := rfl
    rw [hsteps, FluxPulse.ofParams_default hvalues, Except.bind_ok]
  obtain ⟨params, plan, -, -, -, hplan, hexp⟩ :=
    hl.defer_ready (f := fun _ => FluxPulse.play .byDefault a b) (by decide) hmem hfits rfl rfl hsynthesize
      fun _ => FluxPulse.play_plain _ _ _
  exact ⟨_, hl.run_of_expansion hplan (hexp s.ledger)⟩

/-- Two controlled phases on qubits whose names are joined alike. -/
def joinedProgram : List (GateCall Float) := [controlledPhase "A,B" "C", controlledPhase "A" "B,C"]

/-- The same as a text. -/
def joinedText : String :=
  "[\x7b\"gate\":\"CZ\",\"qubits\":[\"A,B\",\"C\"]\x7d," ++
    "\x7b\"gate\":\"CZ\",\"qubits\":[\"A\",\"B,C\"]\x7d]"

/-- A file with this text, wherever one looks. -/
def joinedFiles : Files := fun _ => .text joinedText

theorem loadProgram_joined : loadProgram joinedFiles "p.json" = pure joinedProgram := by
  have hsplit : "p.json".splitOn "/" = ["p.json"] := by simp +decide [String.splitOn, String.splitOnAux]
  have hextension : fileExtension "p.json" = "json" := by
    rw [fileExtension, pathSteps, hsplit]
    cbv
  have hread : readProgram? .json joinedText = some joinedProgram := by cbv
  have hformat : DocumentFormat.ofExtension "json" = .json := by cbv
  rw [loadProgram, joinedFiles, hextension, hformat]
  simp only [hread]

theorem reportText_json (d : Datum) : reportText "out.json" d = pure (Json.writeIndented d) := by
  have hsplit : "out.json".splitOn "/" = ["out.json"] := by
    simp +decide [String.splitOn, String.splitOnAux]
  have hextension : fileExtension "out.json" = "json" := by
    rw [fileExtension, pathSteps, hsplit]
    cbv
  rw [reportText, hextension]
  exact if_neg (by decide +kernel)

/-- The schedule of this program. -/
def joinedSchedule : Schedule Float :=
  let s := (Schedule.ofLedger ∅).applyAll (FluxPulse.play .byDefault "A,B" "C" ∅)
  s.applyAll (FluxPulse.play .byDefault "A" "B,C" s.ledger)

theorem runProgram_joined :
    runProgram plainLowerer 1 (.ofLedger ∅) joinedProgram = .ok joinedSchedule := by
  obtain ⟨n, hfirst⟩ := run_controlledPhase (a := "A,B") (b := "C") (by decide) (.ofLedger ∅)
  obtain ⟨m, hsecond⟩ := run_controlledPhase (a := "A") (b := "B,C") (by decide)
    ((Schedule.ofLedger ∅).applyAll (FluxPulse.play .byDefault "A,B" "C" ∅))
  exact (runProgram_cons hfirst).trans (runProgram_cons hsecond)

/-- The channels that are rendered for this program. -/
theorem exists_rendered_joined : ∃ rendered,
    joinedSchedule.buffers.render (β := Float) 1e9 joinedSchedule.ledger.endTime = .ok rendered ∧
      rendered.map Prod.fst = [.flux "A", .flux "A,B", .flux "B,C", .flux "C",
        .couplerFlux "A" "B,C", .couplerFlux "A,B" "C"] := by
  have hchannels : (joinedSchedule.buffers.render (β := Float) 1e9
      joinedSchedule.ledger.endTime).toOption.map (·.map Prod.fst) = some [.flux "A", .flux "A,B",
        .flux "B,C", .flux "C", .couplerFlux "A" "B,C", .couplerFlux "A,B" "C"] := by
    decide +kernel
  cases hrender : joinedSchedule.buffers.render (β := Float) 1e9 joinedSchedule.ledger.endTime with
  | ok rendered =>
    rw [hrender] at hchannels
    exact ⟨rendered, rfl, Option.some.inj hchannels⟩
  | error e =>
    rw [hrender] at hchannels
    cases hchannels

/-- The request for a report on it. -/
def joinedRequest : LowerRequest := ⟨{}, some 1e9, some "out.json"⟩

/-- **A report that misses a channel.** The couplers of two pairs of qubits are rendered, and as their names
are the same, there is no entry for one of them. -/
theorem joined_couplers_share_an_entry : ∃ save output s rendered,
    (lowerProgram joinedFiles none "p.json" joinedRequest).run "" = (.ok (some save), output) ∧
      ProgramSchedule joinedFiles none "p.json" joinedRequest.lowering s ∧
      s.buffers.render (β := Float) 1e9 s.ledger.endTime = .ok rendered ∧
      .couplerFlux "A,B" "C" ∈ rendered.map Prod.fst ∧ .couplerFlux "A" "B,C" ∈ rendered.map Prod.fst ∧
      (Channel.couplerFlux "A,B" "C").text = (Channel.couplerFlux "A" "B,C").text ∧
      ¬ ReportsAll 1e9 rendered (channelEntries 1e9 rendered) := by
  obtain ⟨drawn, hrender, hchannels⟩ := exists_rendered_joined
  have hgives : Script.Gives (lowerProgram joinedFiles none "p.json" joinedRequest) _ :=
    gives_lowerProgram loadProgram_joined registry_float runProgram_joined rfl hrender rfl reportText_json
  obtain ⟨output, hrun⟩ := hgives ""
  obtain ⟨s, rendered, content, shown, hs, hrendered, -, -, -, -, -, -, hnames, hall, -⟩ :=
    report_misses_joined_channels rfl rfl hrun
  obtain rfl : s = joinedSchedule := hs.unique loadProgram_joined registry_float runProgram_joined
  obtain rfl : rendered = drawn := Except.ok.inj (hrendered.symm.trans hrender)
  have hfirst : Channel.couplerFlux "A,B" "C" ∈ rendered.map Prod.fst := by
    rw [hchannels]
    decide
  have hsecond : Channel.couplerFlux "A" "B,C" ∈ rendered.map Prod.fst := by
    rw [hchannels]
    decide
  have hjoined : (Channel.couplerFlux "A,B" "C").JoinedAlike (.couplerFlux "A" "B,C") :=
    ⟨_, _, _, _, rfl, rfl, by decide⟩
  have hne : Channel.couplerFlux "A,B" "C" ≠ .couplerFlux "A" "B,C" := by decide
  exact ⟨_, output, _, rendered, hrun, hs, hrendered, hfirst, hsecond,
    (hnames _ hfirst _ hsecond hne).mpr hjoined,
    fun hreports => hne (hall.mp hreports _ hfirst _ hsecond hjoined)⟩

end CommandLine

end PulseControl
