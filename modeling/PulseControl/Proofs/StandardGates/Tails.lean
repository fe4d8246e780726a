import PulseControl.Proofs.Schedule.Rendering
import PulseControl.Proofs.StandardGates.DriveWindows
import PulseControl.Proofs.StandardGates.Independence
import PulseControl.Proofs.StandardGates.Pulses
import PulseControl.Proofs.StandardGates.Registered
import PulseControl.Proofs.Waveform.Modulation

/-!
# What rendering cuts off

Every pulse of the library begins, and a drive pulse is over when the cursor behind it comes. Two other
kinds of pulses may play on. The edges of a measurement are centred on its beginning and on the cursor
behind it, so that half an edge comes later, and if the ring-up takes longer than the measurement, so
does that. The edges of a flux pulse are centred on its ends too, but a buffer lies between the pulse
and the cursor. As rendering stops at the latest cursor, it cuts off that much at most.

* `PulseControl.Readout.Pulse.overhang`, `PulseControl.FluxPulse.Pulse.overhang` – how far a pulse may
  play on;
* `PulseControl.StandardGates.Part.ending` – the pulses of every gate;
* `PulseControl.StandardGates.rendering_cuts_tails_only` – the channels of a whole schedule.
-/

namespace PulseControl

open Instruction (Ending)

variable {α : Type} [ExactScalar α] {tail : Channel → α}

/-- Instructions without a pulse. -/
theorem Instruction.ending_of_no_pulse {is : List (Instruction α)}
    (h : ∀ c w, .addWaveform c w ∉ is) : Ending tail is :=
  fun c w hw => absurd hw (h c w)

/-- Drive pulses that begin have no tail, since each ends with its cursor. -/
theorem Ledger.Followed.ending {l : Ledger α} {is : List (Instruction α)} (h : l.Followed DriveWindow is)
    (htail : ∀ c, 0 ≤ tail c) (hdrive : ∀ c w, .addWaveform c w ∈ is → ∃ q, c = .drive q)
    (hbegins : ∀ c w, .addWaveform c w ∈ is → w.Begins) : Ending tail is := by
  intro c w hw
  obtain ⟨q, rfl⟩ := hdrive c w hw
  obtain ⟨before, after, rfl⟩ := List.append_of_mem hw
  obtain ⟨inner, rest, rfl, hwindow⟩ := h.at_split
  obtain ⟨finish, rfl, hend⟩ := hwindow q w rfl
  refine ⟨hbegins _ w hw, q, finish, by simp, fun t ht => hend t (Or.inr ?_)⟩
  exact (le_add_of_nonneg_right (htail _)).trans_lt ht

/-- **Every pulse of the library begins.** -/
theorem StandardGates.Plays.begins {c : Channel} {w : Waveform α} (h : Plays c w) : w.Begins :=
  h.kept Waveform.kept_begins

/-! ### Drive pulses -/

theorem DriveRotation.play_ending {p : Pulse α} (hduration : 0 ≤ p.duration) (hbuffer : 0 ≤ p.buffer)
    (htail : ∀ c, 0 ≤ tail c) (q : Qubit) (l : Ledger α) : Ending tail (p.play q l) := by
  refine (play_windows hduration hbuffer q l).ending htail (fun c w hw => ?_) fun c w hw =>
    (plays_of_mem_play hw).begins
  rcases List.mem_pair.mp hw with h | h <;> cases h
  exact ⟨q, rfl⟩

theorem CrossResonance.pass_ending {p : Pulse α} (hduration : 0 ≤ p.duration) (hedge : 0 ≤ p.edge)
    (hbuffer : 0 ≤ p.buffer) (htail : ∀ c, 0 ≤ tail c) {control target : Qubit} (hne : control ≠ target)
    (sign : α) (l : Ledger α) : Ending tail (pass p control target sign l) := by
  refine (pass_windows hduration hedge hbuffer hne sign l).ending htail (fun c w hw => ?_) fun c w hw =>
    (plays_of_mem_pass hw).begins
  obtain ⟨q, -, ⟨v, h⟩ | h | ⟨value, h⟩⟩ := of_mem_pass hw <;> cases h
  exact ⟨q, rfl⟩

/-! ### Readout -/

namespace Readout

variable {p : Pulse α}

/-- **How far a measurement may play on** behind the cursor that it sets. -/
def Pulse.overhang (p : Pulse α) : α := max p.duration p.ringUpTime + p.edge / 2.0 - p.duration

/-- **A measurement is over** once its last step is: then the amplitudes of its steps cancel. -/
theorem waveform_after (hduration : 0 ≤ p.duration) (hedge : 0 ≤ p.edge) {t s : α}
    (hs : t + p.duration + p.overhang < s) : (p.waveform t).sample s = 0 := by
  have hlate : t + max p.duration p.ringUpTime + p.edge / 2 < s := by
    rw [Pulse.overhang, Waveform.two_eq] at hs
    linarith
  have hholds : p.duration ≤ max p.duration p.ringUpTime := le_max_left _ _
  have hrings : p.ringUpTime ≤ max p.duration p.ringUpTime := le_max_right _ _
  rw [Pulse.waveform, Waveform.sample_mul, Waveform.sample_sub, Waveform.sample_sub,
    Waveform.sample_factor, Waveform.sample_factor, Waveform.sample_factor, Waveform.sample_delay,
    Waveform.sample_delay, Waveform.sample_delay, Waveform.step_after .cos hedge (by linarith),
    Waveform.step_after .cos hedge (by linarith), Waveform.step_after .cos hedge (by linarith)]
  ring

theorem play_ending (hduration : 0 ≤ p.duration) (hedge : 0 ≤ p.edge) {q : Qubit}
    (htail : p.overhang ≤ tail (.readout q)) (choice : BitChoice) (l : Ledger α) :
    Ending tail (play p choice q l) := by
  intro c w hw
  obtain ⟨rfl, rfl⟩ := pulse_of_mem_play hw
  refine ⟨(StandardGates.Plays.readout p q _).begins, q, l.time q + p.duration, ?_,
    fun t ht => waveform_after hduration hedge ?_⟩
  · simp [play]
  · exact (add_le_add_right htail _).trans_lt ht

open Waveform in
/-- The expression of a measurement from time 0 whose ring-up has no amplitude of its own. -/
theorem flat_waveform (hflat : p.ringUpAmp = p.amp) (hpositive : 0 < p.amp) (hone : p.amp ≠ 1)
    (hduration : p.duration ≠ 0) (hfrequency : p.frequency ≠ 0) : p.waveform 0 =
      .product (.sum [.scaled p.amp (step p.edge .cos),
          .scaled (-1 * p.amp) (.delayed (step p.edge .cos) p.duration)])
        (.prim (.carrier (2.0 * Scalar.pi * p.frequency) 0) 0) := by
  have hne : ∀ {a b : α}, a ≠ b → ¬(a == b) = true := fun h hbeq => h ((beq_iff _ _).mp hbeq)
  have hminus : (-1 : α) ≠ 0 ∧ (-1 : α) ≠ 1 ∧ -1 * p.amp ≠ 1 := by
    refine ⟨by norm_num, ?_, ?_⟩ <;> intro h <;> linarith
  have hstart : step p.edge .cos >>> (0 : α) = step p.edge .cos := if_pos ((beq_iff _ _).mpr rfl)
  have hlater : step p.edge .cos >>> p.duration = .delayed (step p.edge .cos) p.duration :=
    if_neg (hne hduration)
  have hfirst : p.amp * step p.edge .cos = scaled p.amp (step p.edge .cos) :=
    (if_neg (hne hpositive.ne')).trans (if_neg (hne hone))
  have hlast : p.amp * delayed (step p.edge .cos) p.duration =
      scaled p.amp (delayed (step p.edge .cos) p.duration) :=
    (if_neg (hne hpositive.ne')).trans (if_neg (hne hone))
  have hnegative : ∀ w, -scaled p.amp w = scaled (-1 * p.amp) w := fun w =>
    ((if_neg (hne hminus.1)).trans (if_neg (hne hminus.2.1))).trans (if_neg (hne hminus.2.2))
  have hcarrier : carrier p.frequency 0 = .prim (.carrier (2.0 * Scalar.pi * p.frequency) 0) 0 :=
    if_neg (hne hfrequency)
  have hsilent : ∀ w : Waveform α, (p.amp - p.amp) * w = zero := fun w =>
    if_pos ((beq_iff _ _).mpr (sub_self _))
  have hnothing : -(Waveform.zero : Waveform α) = .zero :=
    (if_neg (hne hminus.1)).trans (if_neg (hne hminus.2.1))
  rw [Pulse.waveform]
  simp only [zero_add, hstart, hlater, hsilent, hcarrier, hflat, hfirst, hlast]
  change ((scaled p.amp _).add (-zero)).add (-scaled p.amp _) * _ = _
  rw [hnothing, hnegative]
  rfl

open Waveform in
/-- Its support begins half an edge before the measurement, and does not end. -/
theorem flat_support (hflat : p.ringUpAmp = p.amp) (hpositive : 0 < p.amp) (hone : p.amp ≠ 1)
    (hduration : 0 < p.duration) (hedge : 0 ≤ p.edge) (hfrequency : p.frequency ≠ 0) :
    (p.waveform 0).support = some ⟨((-(p.edge / 2) : α) : WithBotTop α), ⊤⟩ := by
  have hstep : (step p.edge .cos).support = some ⟨((-(p.edge / 2) : α) : WithBotTop α), ⊤⟩ := by
    rw [step, support_prim rfl, bounds_step, if_pos rfl, max_eq_left hedge]
  have hscaled : ∀ k (w : Waveform α), (scaled k w).support = w.support (β := WithBotTop α) :=
    fun k w => by rw [support]
  have hcarrier : (prim (.carrier (2.0 * Scalar.pi * p.frequency) 0) 0).support =
      (Bounds.everywhere : Bounds α) := support_prim rfl
  have hsum : ∀ v w : Waveform α, (sum [v, w]).support = Bounds.join v.support w.support := fun v w => by
    rw [support, supportTerms_cons, supportTerms_cons, supportTerms]
    rfl
  have hearlier : ((-(p.edge / 2) : α) : WithBotTop α) ≤
      ((-(p.edge / 2) + p.duration : α) : WithBotTop α) :=
    WithBotTop.coe_le_coe.mpr (le_add_of_nonneg_right hduration.le)
  rw [flat_waveform hflat hpositive hone hduration.ne' hfrequency, support_product, hsum, hscaled,
    hscaled, support_delayed, hstep, hcarrier]
  refine Bounds.mem_common.mpr ⟨_, rfl, _, rfl, ?_, ?_⟩ <;>
    simp [Interval.hull, ExtendedLine.min, ExtendedLine.max, hearlier]

/-- **The pulse of a measurement without overrides**, which is recorded with all of its parameters. -/
def Pulse.byDefault (recorded : ParamValues α) : Pulse α where
  duration := 1e-6
  amp := Scalar.abs 0.1
  frequency := 6.5e9
  bias := 0
  signal := "state"
  weight := "const(1)"
  ringUpAmp := 0.1
  ringUpTime := 50e-9
  edge := 20e-9
  recorded := recorded

theorem ofParams_default {params : Params α}
    (h : ∀ s ∈ schema, params.values[s.name]? = s.default?) :
    Pulse.ofParams params = .ok (.byDefault params.values) := by
  simp only [schema, List.forall_mem_cons] at h
  obtain ⟨hduration, hamp, hfrequency, hbias, hsignal, hweight, -, -, hringUpAmp, hringUpTime, hedge,
    -⟩ := h
  have hduration := Params.float_of_value "duration" hduration
  have hamp := Params.float_of_value "amp" hamp
  have hfrequency := Params.float_of_value "frequency" hfrequency
  have hbias := Params.float_of_value "bias" hbias
  have hsignal := Params.str_of_value "signal" hsignal
  have hweight := Params.str_of_value "weight" hweight
  have hringUpAmp := Params.float_of_value "ring_up_amp" hringUpAmp
  have hringUpTime := Params.float_of_value "ring_up_time" hringUpTime
  have hedge := Params.float_of_value "ring_edge_time" hedge
  rw [Pulse.ofParams, hduration, hamp, hfrequency, hbias, hsignal, hweight, hringUpAmp, hringUpTime,
    hedge]
  rfl

end Readout

/-! ### Flux pulses -/

namespace FluxPulse

variable {p : Pulse α}

/-- **How far a flux pulse may play on** behind the cursors that it sets. -/
def Pulse.overhang (p : Pulse α) : α := p.edge / 2.0 - p.buffer

theorem play_ending (hduration : 0 ≤ p.duration) (hedge : 0 ≤ p.edge) {a b : Qubit}
    (htail : ∀ c ∈ [Channel.flux a, .flux b, .couplerFlux a b], p.overhang ≤ tail c) (l : Ledger α) :
    Ending tail (play p a b l) := by
  -- each of the three pulses is the same flat top times a factor
  have hpulse : ∀ k : α, ∀ c ∈ [Channel.flux a, .flux b, .couplerFlux a b],
      (k * ((Waveform.square p.duration p.edge .cos >>> (p.duration / 2.0)) >>>
          (l.maxTime [a, b] + p.buffer))).Begins ∧
        ∃ q finish, .setTime q finish ∈ play p a b l ∧ ∀ t, finish + tail c < t →
          (k * ((Waveform.square p.duration p.edge .cos >>> (p.duration / 2.0)) >>>
            (l.maxTime [a, b] + p.buffer))).sample t = 0 := by
    intro k c hc
    refine ⟨(StandardGates.Plays.flux p a _ k).begins, a,
      l.maxTime [a, b] + p.buffer + p.duration + p.buffer, by simp [play], fun t ht => ?_⟩
    have hflat := ((((Waveform.square_vanishes .cos hduration hedge).delay (p.duration / 2)).delay
      (l.maxTime [a, b] + p.buffer)).factor k)
    have hreach := htail c hc
    rw [Pulse.overhang, Waveform.two_eq] at hreach
    rw [Waveform.two_eq]
    exact hflat t (Or.inr (by linarith))
  intro c w hw
  simp only [play, List.mem_cons, List.not_mem_nil, or_false, Instruction.setTime, Instruction.setPhase,
    reduceCtorEq] at hw
  rcases hw with hw | hw | hw <;> cases hw <;> exact hpulse _ _ (by simp)

end FluxPulse

/-! ### The library -/

namespace StandardGates

variable {l : Lowerer α} {call : GateCall α} {params : Params α}

/-- **The tails of the pulses of a call** are within those of the channels. Drive pulses have none. -/
structure TailsWithin (tail : Channel → α) (l : Lowerer α) (call : GateCall α) : Prop where
  readout : ∀ {params p q}, l.resolve call.slot = .ok params → Readout.Pulse.ofParams params = .ok p →
    call.target 0 = .ok q → p.overhang ≤ tail (.readout q)
  flux : ∀ {params p a b}, l.resolve call.slot = .ok params → FluxPulse.Pulse.ofParams params = .ok p →
    call.target 0 = .ok a → call.target 1 = .ok b →
    ∀ c ∈ [Channel.flux a, .flux b, .couplerFlux a b], p.overhang ≤ tail c

/-- **The pulses of every gate** begin, and end with a cursor but for their tails. -/
theorem Part.ending {stage : Stage α} (h : Part call params stage) (hnodup : call.targets.Nodup)
    (hres : l.resolve call.slot = .ok params) (hwithin : TailsWithin tail l call)
    (htail : ∀ c, 0 ≤ tail c) (ledger : Ledger α) : Ending tail (stage.block ledger) := by
  cases h with
  | rotation _ hparams hp hplays =>
    obtain ⟨hduration, hbuffer⟩ := DriveRotation.times_nonneg hparams hp hplays
    exact DriveRotation.play_ending hduration hbuffer htail _ ledger
  | pass sign hcontrol htarget hparams hp =>
    obtain ⟨hduration, hedge, hbuffer⟩ := CrossResonance.times_nonneg hparams hp
    exact CrossResonance.pass_ending hduration hedge hbuffer htail
      (GateCall.target_ne hnodup hcontrol htarget (by decide)) sign ledger
  | readout _ hq _ hparams hp =>
    obtain ⟨hduration, hedge⟩ := Readout.times_nonneg hparams hp
    exact Readout.play_ending hduration hedge (hwithin.readout hres hp hq) _ ledger
  | flux ha hb hparams hp =>
    obtain ⟨hduration, hedge, -⟩ := FluxPulse.times_nonneg hparams hp
    exact FluxPulse.play_ending hduration hedge (hwithin.flux hres hp ha hb) ledger
  | barrier =>
    refine Instruction.ending_of_no_pulse fun c w hw => ?_
    obtain ⟨q, -, hq⟩ := Barrier.of_mem_align hw
    cases hq
  | marker | phase | delay =>
    refine Instruction.ending_of_no_pulse fun c w hw => ?_
    cases List.mem_singleton.mp hw

/-- **The pulses of a call** begin, and end with a cursor but for their tails. -/
theorem Extended.ending (hl : Extended l.registry)
    (hwithin : ∀ x, l.registry.Reaches call x → TailsWithin tail l x) (htail : ∀ c, 0 ≤ tail c)
    {seed : Ledger α} {first : Lowering α} (hfirst : l.lower call seed = .ok first) :
    Ending tail first.drain.instructions := by
  obtain ⟨is, hexp, -, -, hshown⟩ := hl.yields_expansion hfirst
  have hplanned := Lowerer.planned_of_lower hfirst
  have hinherited := (Lowerer.planned_inherited hl.wellDeclared).and
    (Lowerer.reaches_inherited hl.wellDeclared call)
  have hblocks := hexp.inBlocks (B := fun _ => Ending tail)
    (hl.givesBlocks_of_resolve fun x _ _ hx hres hpart =>
      hpart.ending hx.1.nodup hres (hwithin x hx.2) htail)
    ⟨hplanned, .refl⟩ (hexp.inherits hinherited ⟨hplanned, .refl⟩)
  rw [hshown]
  exact (hblocks.join (fun _ => .nil) fun _ _ _ => .append).shown l.options

/-- **Rendering cuts off nothing but tails**, in exact arithmetic. Calls of the library and any compound
gates, with any calibrations and options, are run one after the other from an empty ledger, and those
that fail are passed over; the tails of their pulses are within those of the channels. If the channels
can then be rendered up to the latest cursor, each that plays anything is zero everywhere or has been
sampled over a window, and it is zero before this window and, but for its tail, after it. Where the
tails are zero, as they may be for all drive lines, nothing is cut off. -/
theorem rendering_cuts_tails_only (runs : List (Lowerer α × GateCall α))
    (hext : ∀ run ∈ runs, Extended run.1.registry) (htail : ∀ c, 0 ≤ tail c)
    (hwithin : ∀ run ∈ runs, ∀ x, run.1.registry.Reaches run.2 x → TailsWithin tail run.1 x)
    (s : Schedule α) (hs : s = (Schedule.ofLedger ∅).runEach runs) (rate : α)
    (rendered : List (Channel × RenderedChannel α))
    (hrender : s.buffers.render (β := WithBotTop α) rate s.ledger.endTime = .ok rendered)
    (c : Channel) (w : Waveform α) (hw : s.buffers[c]? = some w) :
    (w.support (β := WithBotTop α) = none ∧ ∀ t, w.sample t = 0) ∨
      ∃ i start stop samples, w.support (β := WithBotTop α) = some i ∧
        Buffers.window i s.ledger.endTime = (start, stop) ∧
        w.sampleRange start stop rate = .ok samples ∧ (c, ⟨start, samples⟩) ∈ rendered ∧
        ∀ t, t < start ∨ stop + tail c < t → w.sample t = 0 := by
  have hrecorded : Schedule.Recorded ∅ s := hs ▸ (Schedule.recorded_ofLedger ∅).performAll _
  have hforward : (∅ : Ledger α).Along Ledger.Forward s.log := by
    rw [hs]
    exact Schedule.along_runEach ∅ fun run hrun => (hext run hrun).steers
  have hending : Ending tail s.log := by
    have hblocks := Schedule.inBlocks_runEach (B := fun _ => Ending tail)
      (Schedule.recorded_ofLedger ∅) (.nil ∅)
      fun run hrun ledger first hfirst _ => (hext run hrun).ending (hwithin run hrun) htail hfirst
    rw [hs]
    exact hblocks.join (fun _ => .nil) fun _ _ _ => .append
  obtain ⟨hbegins, hend⟩ := hrecorded.ends hforward hending hw
  rcases Buffers.of_render hrender hw with hnone | ⟨i, samples, hi, hsamples, hmem⟩
  · refine Or.inl ⟨hnone, fun t => ?_⟩
    by_contra hne
    obtain ⟨i, hi, -⟩ := Waveform.covers_of_sample_ne_zero hne
    rw [hnone] at hi
    cases hi
  · exact Or.inr ⟨i, _, _, samples, hi, rfl, hsamples, hmem,
      Waveform.vanishes_outside_window hi hbegins (htail c) hend⟩

/-! ### A measurement without overrides -/

/-- A measurement. -/
def measurement : GateCall ℝ := ⟨.plain "Measure", ["Q0"], []⟩

/-- The schedule after a measurement from an empty ledger. -/
noncomputable def measured : Schedule ℝ := (Schedule.ofLedger ∅).runEach [(realLowerer, measurement)]

/-- What is read for a measurement, and what it leaves. -/
theorem exists_measured : ∃ params, realLowerer.resolve measurement.slot = .ok params ∧
    Readout.schema.resolve measurement.key ∅ = .ok params ∧
    Readout.Pulse.ofParams params = .ok (.byDefault params.values) ∧
    measured.buffers =
      Buffers.add ∅ (.readout "Q0") ((Readout.Pulse.byDefault params.values).waveform 0) ∧
    measured.ledger.endTime = 1e-6 := by
  have hmem : (measurement.key, .primitive Readout.schema Readout.procedure) ∈ definitions (α := ℝ) := by
    simp [definitions, primitives, measurement]
  have hfits : (Readout.procedure (α := ℝ)).signature.check measurement = .ok () :=
    Signature.check_eq_ok.mpr ⟨rfl, List.nodup_singleton _, rfl, fun p _ => ExactScalar.isFinite_eq p.2⟩
  have hsynthesize : ∀ params : Params ℝ, (∀ s ∈ Readout.schema, params.values[s.name]? = s.default?) →
      Readout.procedure.synthesize measurement params =
        .ok (.defer (Readout.play (.byDefault params.values) .next "Q0")) := by
    intro params hvalues
    have hsteps : Readout.procedure.synthesize measurement params =
        (Readout.Pulse.ofParams params >>= fun pulse =>
          .ok (.defer (Readout.play pulse .next "Q0"))) := rfl
    rw [hsteps, Readout.ofParams_default hvalues, Except.bind_ok]
  obtain ⟨params, plan, hres, hdefaults, hvalues, hplan, hexp⟩ :=
    extended_realLowerer.defer_ready (by decide) hmem hfits rfl rfl hsynthesize
      fun _ => Readout.play_plain _ _ _
  refine ⟨params, hres, hdefaults, Readout.ofParams_default hvalues, ?_⟩
  have hrun := extended_realLowerer.run_of_expansion (s := Schedule.ofLedger ∅) hplan (hexp ∅)
  have hmeasured : measured = (Schedule.ofLedger ∅).applyAll
      (Readout.play (.byDefault params.values) .next "Q0" ∅) := congrArg Prod.snd hrun
  have htime : ∀ q, measured.ledger.time q = if "Q0" = q then 1e-6 else 0 := by
    intro q
    have hplayed : measured.ledger.time q =
        (((∅ : Ledger ℝ).apply (.setTime "Q0" (0 + 1e-6))).time q) := by rw [hmeasured]; rfl
    rw [hplayed, Ledger.time_apply_setTime, zero_add]
    rfl
  refine ⟨by rw [hmeasured]; rfl, le_antisymm (Ledger.endTime_le.mpr ⟨by norm_num, fun q => ?_⟩) ?_⟩
  · rw [htime]
    split <;> norm_num
  · have hcursor := measured.ledger.time_le_endTime "Q0"
    rwa [htime, if_pos rfl] at hcursor

/-- The support of a measurement without overrides. -/
theorem support_measured (recorded : ParamValues ℝ) :
    ((Readout.Pulse.byDefault recorded).waveform (0 : ℝ)).support =
      some ⟨((-(20e-9 / 2) : ℝ) : WithBotTop ℝ), ⊤⟩ := by
  have hamp : (Readout.Pulse.byDefault recorded).amp = (0.1 : ℝ) := abs_of_pos (by norm_num)
  refine Readout.flat_support (hamp.symm ▸ rfl) ?_ ?_ ?_ ?_ ?_
  · rw [hamp]
    norm_num
  · rw [hamp]
    norm_num
  · change (0 : ℝ) < 1e-6
    norm_num
  · change (0 : ℝ) ≤ 20e-9
    norm_num
  · change (6.5e9 : ℝ) ≠ 0
    norm_num

/-- The window over which a measurement without overrides is sampled. -/
theorem window_measured :
    Buffers.window ⟨((-(20e-9 / 2) : ℝ) : WithBotTop ℝ), ⊤⟩ (1e-6 : ℝ) = (-(20e-9 / 2), 1e-6) :=
  Prod.ext rfl (max_eq_left (show (-(20e-9 / 2) : ℝ) ≤ 1e-6 by norm_num))

/-- A measurement is rendered. -/
theorem exists_rendered_measured : ∃ rendered,
    measured.buffers.render (β := WithBotTop ℝ) 1e9 measured.ledger.endTime = .ok rendered := by
  obtain ⟨params, -, -, -, hbuffers, hend⟩ := exists_measured
  rw [hbuffers, hend]
  refine Buffers.exists_render fun c w hw => ?_
  have hone : w = (Readout.Pulse.byDefault params.values).waveform 0 := by
    rw [Buffers.add, Std.ExtTreeMap.getElem?_insert] at hw
    split at hw
    · exact (Option.some.inj hw).symm
    · cases hw
  have hgrid : ∃ samples, w.sampleRange (-(20e-9 / 2) : ℝ) 1e-6 1e9 = .ok samples :=
    w.exists_sampleRange (by norm_num) (by norm_num) (by norm_num [maxSamples])
  obtain ⟨samples, hsamples⟩ := hgrid
  refine ⟨some ⟨-(20e-9 / 2), samples⟩, ?_⟩
  have hsupport := support_measured params.values
  rw [← hone] at hsupport
  simp only [Buffers.renderChannel, hsupport, window_measured, hsamples]

open Real Waveform in
/-- **The end of a measurement is cut off.** -/
theorem measurement_is_cut_off : ∃ rendered w i,
    measured.buffers.render (β := WithBotTop ℝ) 1e9 measured.ledger.endTime = .ok rendered ∧
      measured.buffers[Channel.readout "Q0"]? = some w ∧ w.support = some i ∧
      (Buffers.window i measured.ledger.endTime).2 < 1.005e-6 ∧ w.sample 1.005e-6 ≠ 0 := by
  obtain ⟨params, -, -, -, hbuffers, hend⟩ := exists_measured
  obtain ⟨rendered, hrender⟩ := exists_rendered_measured
  refine ⟨rendered, (Readout.Pulse.byDefault params.values).waveform 0, _, hrender, ?_,
    support_measured _, ?_, ?_⟩
  · rw [hbuffers, Buffers.add, Std.ExtTreeMap.getElem?_insert_self]
    rfl
  · rw [hend, window_measured]
    norm_num
  · have hcarrier : cos (2 * π * 6.5e9 * 1.005e-6 + 0) = -1 := by
      have hangle : 2 * π * 6.5e9 * 1.005e-6 + 0 = π + (6532 : ℕ) * (2 * π) := by norm_num; ring
      rw [hangle, cos_add_nat_mul_two_pi, cos_pi]
    -- three quarters of the last edge are over, and a quarter is still to come
    have hedge : (step (20e-9 : ℝ) .cos).sample (1.005e-6 - (0 + 1e-6)) < 1 := by
      have hbelow : -1 < cos (π * 0.75) := by
        rw [← cos_pi]
        exact cos_lt_cos_of_nonneg_of_le_pi (by positivity) le_rfl (by linarith [pi_pos])
      have hplace : (1.005e-6 - (0 + 1e-6) + 20e-9 / 2) / 20e-9 = (0.75 : ℝ) := by norm_num
      rw [step, sample, Primitive.value, stepValue, if_neg (by norm_num), two_eq, hplace, if_pos rfl,
        if_neg (by norm_num), if_neg (by norm_num), scalar_pi_real, scalar_cos_real]
      linarith
    have hheld : (step (20e-9 : ℝ) .cos).sample (1.005e-6 - 0) = 1 :=
      step_after .cos (by norm_num) (by norm_num)
    have hamp : (Readout.Pulse.byDefault params.values).amp = (0.1 : ℝ) := abs_of_pos (by norm_num)
    rw [Readout.Pulse.waveform, sample_mul, sample_sub, sample_sub, sample_factor, sample_factor,
      sample_factor, sample_delay, sample_delay, sample_delay, sample_carrier, hamp]
    refine mul_ne_zero (ne_of_gt ?_) (ne_of_eq_of_ne hcarrier (by norm_num))
    change 0 < 0.1 * (step (20e-9 : ℝ) .cos).sample (1.005e-6 - 0) - (0.1 - 0.1) * _ -
      0.1 * (step (20e-9 : ℝ) .cos).sample (1.005e-6 - (0 + 1e-6))
    rw [hheld]
    linarith

/-- **Half an edge of a measurement** is all that is cut off. -/
theorem measurement_has_short_tail : ∃ rendered w start samples,
    measured.buffers.render (β := WithBotTop ℝ) 1e9 measured.ledger.endTime = .ok rendered ∧
      measured.buffers[Channel.readout "Q0"]? = some w ∧
      (Channel.readout "Q0", ⟨start, samples⟩) ∈ rendered ∧
      ∀ t, t < start ∨ 1e-6 + 20e-9 / 2 < t → w.sample t = 0 := by
  obtain ⟨params, hres, hdefaults, hpulse, hbuffers, hend⟩ := exists_measured
  obtain ⟨rendered, hrender⟩ := exists_rendered_measured
  have htails : ∀ run ∈ [(realLowerer, measurement)], ∀ x, run.1.registry.Reaches run.2 x →
      TailsWithin (fun _ => (20e-9 / 2 : ℝ)) run.1 x := by
    intro run hrun x hx
    obtain rfl := List.mem_singleton.mp hrun
    rw [eq_of_reaches_measure extended_realLowerer rfl hx]
    constructor
    · intro params' p q hres' hp _
      cases hres.symm.trans hres'
      cases hpulse.symm.trans hp
      change max (1e-6 : ℝ) 50e-9 + 20e-9 / 2.0 - 1e-6 ≤ 20e-9 / 2
      rw [max_eq_left (by norm_num)]
      norm_num
    · -- a measurement has no parameters that could be read as those of a flux pulse
      intro params' p a b hres' hp _ _
      cases hres.symm.trans hres'
      have hbuffer := (FluxPulse.times_of_params hp).2.2
      have hundeclared : "buffer" ∉ (Readout.schema (α := ℝ)).map ParamSpec.name := by
        rw [Readout.schema_names]
        decide
      rw [Params.float, ParamSchema.resolve_of_not_mem hdefaults hundeclared] at hbuffer
      cases hbuffer
  have hw : measured.buffers[Channel.readout "Q0"]? =
      some ((Readout.Pulse.byDefault params.values).waveform 0) := by
    rw [hbuffers]
    exact Std.ExtTreeMap.getElem?_insert_self
  refine ⟨rendered, (Readout.Pulse.byDefault params.values).waveform 0, -(20e-9 / 2), ?_⟩
  rcases rendering_cuts_tails_only [(realLowerer, measurement)]
    (fun run hrun => List.mem_singleton.mp hrun ▸ extended_realLowerer) (fun _ => by norm_num) htails
    measured rfl 1e9 rendered hrender _ _ hw with
    ⟨hnone, -⟩ | ⟨i, start, stop, samples, hi, hwindow, -, hmem, hzero⟩
  · cases hnone.symm.trans (support_measured params.values)
  · cases hi.symm.trans (support_measured params.values)
    rw [hend, window_measured] at hwindow
    cases hwindow
    exact ⟨samples, hrender, hw, hmem, hzero⟩

end StandardGates

end PulseControl
