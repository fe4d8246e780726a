import Mathlib.Order.Interval.Set.Basic
import PulseControl.Proofs.StandardGates.Cursors
import PulseControl.Proofs.StandardGates.Locality
import PulseControl.Proofs.Waveform.Windows

/-!
# Drive pulses do not overlap

Two kinds of gates play on a drive line: rotations, whose pulse starts at the cursor of the qubit, and
cross resonance, whose pulses start when both qubits are free. Each pulse is followed at once by the new
cursor of its qubit, and the delays that place it in time add up so that it fits in between, whatever its
envelope, its edges and its buffer. As cursors never move back, no two pulses on one line meet.

* `PulseControl.Ledger.DriveWindow` – what belongs to a pulse on a drive line;
* `PulseControl.DriveRotation.play_windows`, `PulseControl.CrossResonance.pass_windows` – the pulses of
  the two kinds of gates;
* `PulseControl.StandardGates.Part.windows` – the instructions of every gate;
* `PulseControl.StandardGates.drive_pulses_never_overlap` – the pulses of a whole schedule.
-/

namespace PulseControl

variable {α : Type} [ExactScalar α]

/-! ### Pulses and cursors -/

namespace Ledger

/-- **What belongs to a pulse on a drive line**: the cursor of its qubit is set right behind it, and it is
zero before the cursor that it meets and after the one that is set. -/
def DriveWindow (l : Ledger α) (i : Instruction α) (inner : List (Instruction α)) : Prop :=
  ∀ q w, i = .addWaveform (.drive q) w →
    ∃ finish, inner = [.setTime q finish] ∧ w.VanishesOutside (l.time q) finish

variable {l : Ledger α} {i : Instruction α} {inner : List (Instruction α)}

/-- The cursor is shown with its pulse. -/
theorem DriveWindow.shown (h : l.DriveWindow i inner) (o : LoweringOptions) :
    l.DriveWindow i (o.shown inner) := by
  intro q w hi
  obtain ⟨finish, rfl, hw⟩ := h q w hi
  exact ⟨finish, LoweringOptions.shown_cons (Or.inr rfl) [], hw⟩

/-- Instructions without a pulse on a drive line. -/
theorem followed_of_no_drive {is : List (Instruction α)}
    (h : ∀ q w, .addWaveform (.drive q) w ∉ is) (l : Ledger α) : l.Followed DriveWindow is := by
  refine followed_of_forall (E := DriveWindow) (fun i hi l q w hpulse => ?_) l
  rw [hpulse] at hi
  exact absurd hi (h q w)

/-- A pulse with its new cursor. -/
theorem followed_pulse {q : Qubit} {w : Waveform α} {finish : α}
    (h : w.VanishesOutside (l.time q) finish) :
    l.Followed DriveWindow [.addWaveform (.drive q) w, .setTime q finish] := by
  refine ⟨⟨[.setTime q finish], [], rfl, fun r v hpulse => ?_⟩, ?_⟩
  · cases hpulse
    exact ⟨finish, rfl, h⟩
  · refine followed_of_no_drive (fun r v hmem => ?_) _
    cases List.mem_singleton.mp hmem

end Ledger

/-! ### Rotations -/

namespace DriveRotation

variable {p : Pulse α}

/-- A rotation is over after its duration. -/
theorem baseband_vanishes (hduration : 0 ≤ p.duration) :
    p.baseband.VanishesOutside 0 p.duration := by
  obtain ⟨henvelope, hslope⟩ := Waveform.envelope_vanishes p.shape hduration
  have hstart : -(p.duration / 2) + p.duration / 2 = 0 := by ring
  have hfinish : p.duration / 2 + p.duration / 2 = p.duration := by ring
  have hplaced := (henvelope.factor p.amp).delay (p.duration / 2)
  have hderived : ((p.amp * Waveform.envelope p.shape p.duration) >>>
      (p.duration / 2)).derivative.VanishesOutside 0 p.duration := by
    intro t ht
    rw [Waveform.sample_derivative_delay, Waveform.sample_derivative_factor,
      hslope _ (ht.imp (fun h => by linarith) fun h => by linarith), mul_zero]
  rw [hstart, hfinish] at hplaced
  have hzero : (Waveform.zero : Waveform α).derivative = .zero := by rw [Waveform.derivative]
  rw [Pulse.baseband, Waveform.two_eq]
  refine IqPair.VanishesOutside.mix ⟨hplaced, Waveform.vanishesOutside_zero _ _⟩ hderived ?_ _
  rw [hzero]
  exact Waveform.vanishesOutside_zero _ _

/-- **The pulse of a rotation** lies between the two cursors of its qubit. -/
theorem play_windows (hduration : 0 ≤ p.duration) (hbuffer : 0 ≤ p.buffer) (q : Qubit) (l : Ledger α) :
    l.Followed Ledger.DriveWindow (p.play q l) := by
  have hplaced := ((baseband_vanishes hduration).delay (l.time q + p.buffer / 2)).modulate (l.phase q)
    p.frequency
  rw [Pulse.play, Waveform.two_eq]
  exact Ledger.followed_pulse (hplaced.i.mono (by linarith) (by linarith))

end DriveRotation

/-! ### Cross resonance -/

namespace CrossResonance

variable {p : Pulse α}

/-- The flat pulse of a pass lies between its beginning and its end. -/
theorem flatTop_vanishes (hduration : 0 ≤ p.duration) (hedge : 0 ≤ p.edge) (hbuffer : 0 ≤ p.buffer)
    (t : α) : (p.flatTop t).VanishesOutside t (p.finish t) := by
  have hflat := (Waveform.square_vanishes p.edgeShape hduration hedge).delay
    (t + p.duration / 2 + p.edge / 2 + p.buffer / 2)
  rw [Pulse.flatTop, Waveform.two_eq, Pulse.finish]
  exact hflat.mono (by linarith) (by linarith)

/-- So do the corrections at its edges. -/
theorem corrections_vanish (hduration : 0 ≤ p.duration) (hbuffer : 0 ≤ p.buffer) (t : α) :
    (p.corrections t).VanishesOutside t (p.finish t) := by
  have hslope := Waveform.slope_vanishes p.edge p.edgeShape
  have hrise : ((Waveform.step p.edge p.edgeShape).derivative >>>
      (t + (p.edge + p.buffer) / 2)).VanishesOutside t (p.finish t) := by
    rw [Pulse.finish]
    exact (hslope.delay _).mono (by linarith) (by linarith)
  have hfall : ((Waveform.step p.edge p.edgeShape).derivative >>>
      (t + (p.edge + p.buffer) / 2 + p.duration)).VanishesOutside t (p.finish t) := by
    rw [Pulse.finish]
    exact (hslope.delay _).mono (by linarith) (by linarith)
  have hzero : (Waveform.zero : Waveform α).VanishesOutside t (p.finish t) :=
    Waveform.vanishesOutside_zero _ _
  rw [Pulse.corrections, Waveform.two_eq]
  refine (hzero.add ?_).add ?_
  · split
    · exact (hrise.sub hfall).factor _
    · exact hzero
  · split
    · exact (hrise.add hfall).factor _
    · exact hzero

/-- **The pulses of a pass** lie between the two cursors of their qubits, which are different ones. -/
theorem pass_windows (hduration : 0 ≤ p.duration) (hedge : 0 ≤ p.edge) (hbuffer : 0 ≤ p.buffer)
    {control target : Qubit} (hne : control ≠ target) (sign : α) (l : Ledger α) :
    l.Followed Ledger.DriveWindow (pass p control target sign l) := by
  have hflat := flatTop_vanishes hduration hedge hbuffer (l.maxTime [control, target])
  have hcorrections := corrections_vanish hduration hbuffer (l.maxTime [control, target])
  have hcontrol : l.time control ≤ l.maxTime [control, target] :=
    l.cursorsDefined.time_le_maxTime List.mem_cons_self
  have htarget : l.time target ≤ l.maxTime [control, target] :=
    l.cursorsDefined.time_le_maxTime (List.mem_cons_of_mem _ List.mem_cons_self)
  have hfirst : l.Followed Ledger.DriveWindow
      (p.onControl l control target (l.maxTime [control, target]) sign) := by
    rw [Pulse.onControl]
    split
    · have hpair : (⟨p.amp1 * p.flatTop (l.maxTime [control, target]), .zero⟩ :
          IqPair α).VanishesOutside _ _ := ⟨hflat.factor _, Waveform.vanishesOutside_zero _ _⟩
      have hmixed := ((hpair.modulate (p.globalPhase - l.phase target) p.frequency).i.factor sign)
      exact Ledger.followed_pulse (hmixed.mono hcontrol (le_refl _))
    · exact Ledger.followed_nil l
  -- the first pulse sets the cursor of the control and leaves that of the target alone
  have hsame : (l.applyAll (p.onControl l control target (l.maxTime [control, target]) sign)).time
      target = l.time target := by
    rw [Pulse.onControl]
    split
    · exact (Ledger.time_apply_setTime l control target _).trans (if_neg hne)
    · rfl
  have hsecond : (l.applyAll (p.onControl l control target (l.maxTime [control, target])
      sign)).Followed Ledger.DriveWindow (p.onTarget l target (l.maxTime [control, target]) sign) := by
    rw [Pulse.onTarget]
    split
    · have hpair : (⟨p.amp2 * p.flatTop (l.maxTime [control, target]),
          p.corrections (l.maxTime [control, target])⟩ : IqPair α).VanishesOutside _ _ :=
        ⟨hflat.factor _, hcorrections⟩
      have hmixed := ((hpair.modulate (p.globalPhase + p.relativePhase - l.phase target)
        p.frequency).i.factor sign)
      exact Ledger.followed_pulse (hmixed.mono (hsame ▸ htarget) (le_refl _))
    · exact Ledger.followed_nil _
  refine (hfirst.append hsecond).append (Ledger.followed_of_no_drive (fun q w hmem => ?_) _)
  simp [Instruction.setPhase] at hmem

end CrossResonance

/-! ### The library -/

namespace StandardGates

variable {l : Lowerer α} {call : GateCall α} {params : Params α}

/-- **The drive pulses of every gate** lie between the cursors of their qubits. -/
theorem Part.windows {stage : Stage α} (h : Part call params stage) (hnodup : call.targets.Nodup)
    (ledger : Ledger α) : ledger.Followed Ledger.DriveWindow (stage.block ledger) := by
  cases h with
  | rotation _ hparams hp hplays =>
    obtain ⟨hduration, hbuffer⟩ := DriveRotation.times_nonneg hparams hp hplays
    exact DriveRotation.play_windows hduration hbuffer _ ledger
  | pass sign hcontrol htarget hparams hp =>
    obtain ⟨hduration, hedge, hbuffer⟩ := CrossResonance.times_nonneg hparams hp
    exact CrossResonance.pass_windows hduration hedge hbuffer
      (GateCall.target_ne hnodup hcontrol htarget (by decide)) sign ledger
  | readout =>
    refine Ledger.followed_of_no_drive (fun r w hmem => ?_) ledger
    rcases Readout.of_mem_play hmem with ⟨v, h⟩ | h | ⟨bit, -, h⟩ | h | h <;> cases h
  | flux =>
    refine Ledger.followed_of_no_drive (fun r w hmem => ?_) ledger
    simp [Stage.block, FluxPulse.play, Channel.drive, Channel.flux, Channel.couplerFlux,
      Instruction.setTime, Instruction.setPhase] at hmem
  | barrier =>
    refine Ledger.followed_of_no_drive (fun r w hmem => ?_) ledger
    obtain ⟨q, -, hq⟩ := Barrier.of_mem_align hmem
    cases hq
  | marker | phase | delay =>
    refine Ledger.followed_of_no_drive (fun r w hmem => ?_) ledger
    cases List.mem_singleton.mp hmem

/-- **The drive pulses of a call** lie between the cursors of their qubits, whether markers are shown or
not. -/
theorem Extended.windows (hl : Extended l.registry) {seed : Ledger α} {first : Lowering α}
    (hfirst : l.lower call seed = .ok first) :
    seed.Followed Ledger.DriveWindow first.drain.instructions := by
  obtain ⟨is, hexp, -, -, hshown⟩ := hl.yields_expansion hfirst
  have hplanned := Lowerer.planned_of_lower hfirst
  have hblocks := hexp.inBlocks (B := Ledger.Followed Ledger.DriveWindow)
    (hl.givesBlocks fun x _ _ hx hpart => hpart.windows hx.nodup)
    hplanned (hexp.inherits (Lowerer.planned_inherited hl.wellDeclared) hplanned)
  have hwindows := hblocks.join Ledger.followed_nil fun _ _ _ his hjs => his.append hjs
  rw [hshown]
  exact hwindows.shown l.options fun _ _ _ h => h.shown l.options

/-- **Drive pulses never overlap** in exact arithmetic, whatever the cosine and the exponential function
are. Calls of the library and any compound gates, with any calibrations and options, are run one after the
other from an empty ledger, and those that fail are passed over. Then every pulse on the drive line of a
qubit is followed at once by the new cursor of the qubit, which is no earlier than the cursor before the
pulse, and the pulse is zero outside of the time between the two. So the times of two pulses on one line
have at most one instant in common. -/
theorem drive_pulses_never_overlap (runs : List (Lowerer α × GateCall α))
    (hext : ∀ run ∈ runs, Extended run.1.registry) (s : Schedule α)
    (hs : s = (Schedule.ofLedger ∅).runEach runs) :
    (∀ before q w after, s.log = before ++ .addWaveform (.drive q) w :: after →
      ∃ finish rest, after = .setTime q finish :: rest ∧
        (Ledger.applyAll ∅ before).time q ≤ finish ∧
        w.VanishesOutside ((Ledger.applyAll ∅ before).time q) finish) ∧
    ∀ q before w finish after before' w' finish' after',
      s.log = before ++ .addWaveform (.drive q) w :: .setTime q finish :: after →
      s.log = before' ++ .addWaveform (.drive q) w' :: .setTime q finish' :: after' →
      before.length < before'.length →
      (Set.Icc ((Ledger.applyAll ∅ before).time q) finish ∩
        Set.Icc ((Ledger.applyAll ∅ before').time q) finish').Subsingleton := by
  have hwindows : (∅ : Ledger α).Followed Ledger.DriveWindow s.log := by
    have hblocks := Schedule.inBlocks_runEach (B := Ledger.Followed Ledger.DriveWindow)
      (Schedule.recorded_ofLedger ∅) (.nil ∅)
      fun run hrun ledger first hfirst _ => (hext run hrun).windows hfirst
    rw [hs]
    exact hblocks.join Ledger.followed_nil fun _ _ _ his hjs => his.append hjs
  have halong : (∅ : Ledger α).Along Ledger.Forward s.log := by
    rw [hs]
    exact Schedule.along_runEach ∅ fun run hrun => (hext run hrun).steers
  refine ⟨fun before q w after hlog => ?_,
    fun q before w finish after before' w' finish' after' hlog hlog' hlt => ?_⟩
  · obtain ⟨inner, rest, rfl, hpulse⟩ := (hlog ▸ hwindows).at_split
    obtain ⟨finish, rfl, hw⟩ := hpulse q w rfl
    refine ⟨finish, rest, rfl, ?_, hw⟩
    have hforward := Ledger.along_iff.mp halong (before ++ [.addWaveform (.drive q) w])
      (.setTime q finish) rest (by rw [hlog]; simp)
    rwa [Ledger.applyAll_append] at hforward
  · -- the first pulse and the cursor behind it stand before the second pulse
    have hlater : before.length + 2 ≤ before'.length := by
      refine Nat.lt_of_le_of_ne hlt fun heq => ?_
      have hcursor : s.log[before.length + 1]? = some (.setTime q finish) := by
        rw [hlog, List.getElem?_append_right (Nat.le_succ _)]
        simp
      rw [heq, hlog', List.getElem?_append_right (le_refl _)] at hcursor
      simp [Instruction.setTime] at hcursor
    have hmono := Ledger.monotone_time halong q hlater
    have htake : s.log.take (before.length + 2) =
        before ++ [.addWaveform (.drive q) w, .setTime q finish] := by
      rw [hlog, List.take_length_add_append]
      rfl
    have htake' : s.log.take before'.length = before' := by
      rw [hlog', List.take_left]
    have hfinish : finish ≤ (Ledger.applyAll ∅ before').time q := by
      simp only [htake, htake', Ledger.applyAll_append, Ledger.applyAll_cons, Ledger.applyAll_nil,
        Ledger.time_apply_setTime, if_true] at hmono
      exact hmono
    rintro x ⟨hx, hx'⟩ y ⟨hy, hy'⟩
    have hxeq : x = finish := le_antisymm hx.2 (hfinish.trans hx'.1)
    have hyeq : y = finish := le_antisymm hy.2 (hfinish.trans hy'.1)
    rw [hxeq, hyeq]

/-! ### Two rotations -/

/-- A rotation by an angle of 1. -/
def turn : GateCall ℚ := ⟨.plain "rfUnitary", ["Q0"], [1, 0]⟩

/-- A rotation by an angle of 1 plays one pulse. -/
theorem expansion_turn {is : List (Instruction ℚ)} {ledger final : Ledger ℚ}
    (hexp : exactLowerer.Expansion turn ledger is final) :
    ∃ w finish, is = [.addWaveform (.drive "Q0") w, .setTime "Q0" finish] := by
  obtain ⟨params, s, hres, hs, hexpands⟩ := hexp
  have hget : exactLowerer.registry.get? turn.key =
      some (.primitive DriveRotation.schema DriveRotation.procedure) :=
    extended_exactLowerer.get?_of_mem (by simp [definitions, primitives, turn])
  have hplays : ((exactLowerer.resolve turn.slot).toOption.bind fun params =>
      (exactLowerer.registry.synthesize turn params).toOption.map (·.stages.isEmpty)) =
        some false := by
    decide +kernel
  rw [hres, Except.toOption, Option.bind_some, hs] at hplays
  rw [Registry.synthesize_primitive hget] at hs
  obtain ⟨q, theta, phi, p, hq, -, ⟨-, rfl⟩ | ⟨-, rfl⟩⟩ := DriveRotation.of_synthesize hs
  · cases hplays
  · cases hq
    exact ⟨_, _, hexpands.of_defer (DriveRotation.play_plain p "Q0" ledger)⟩

/-- So a schedule takes one pulse and one cursor in. -/
theorem log_run_turn (s : Schedule ℚ) : ∃ w finish, (s.run exactLowerer turn).2.log =
    s.log ++ [.addWaveform (.drive "Q0") w, .setTime "Q0" finish] := by
  obtain ⟨plan, hplan⟩ := Except.isOk_eq_true.mp
    (show (exactLowerer.plan turn).isOk = true by decide +kernel)
  obtain ⟨first, hfirst⟩ := Lowerer.exists_lower_ok hplan s.ledger
  obtain ⟨is, hexp, -, hok, hshown⟩ := extended_exactLowerer.yields_expansion hfirst
  obtain ⟨w, finish, rfl⟩ := expansion_turn hexp
  refine ⟨w, finish, ?_⟩
  rw [Schedule.run_of_drain hfirst hok, hshown]
  exact Schedule.log_applyAll _ _

/-- Two rotations one after the other play two pulses that do not overlap. -/
theorem turns_do_not_overlap : ∃ s w finish w' finish',
    s = (Schedule.ofLedger ∅).runEach [(exactLowerer, turn), (exactLowerer, turn)] ∧
      s.log = [.addWaveform (.drive "Q0") w, .setTime "Q0" finish, .addWaveform (.drive "Q0") w',
        .setTime "Q0" finish'] ∧
      w.VanishesOutside ((∅ : Ledger ℚ).time "Q0") finish ∧ w'.VanishesOutside finish finish' ∧
      (Set.Icc ((∅ : Ledger ℚ).time "Q0") finish ∩ Set.Icc finish finish').Subsingleton := by
  obtain ⟨w, finish, hfirst⟩ := log_run_turn (Schedule.ofLedger ∅)
  obtain ⟨w', finish', hsecond⟩ := log_run_turn ((Schedule.ofLedger ∅).run exactLowerer turn).2
  rw [hfirst] at hsecond
  obtain ⟨s, hs⟩ : ∃ s, s = (Schedule.ofLedger (∅ : Ledger ℚ)).runEach
      [(exactLowerer, turn), (exactLowerer, turn)] := ⟨_, rfl⟩
  have hlog : s.log = [.addWaveform (.drive "Q0") w, .setTime "Q0" finish,
      .addWaveform (.drive "Q0") w', .setTime "Q0" finish'] := by
    rw [hs]
    exact hsecond
  obtain ⟨hwindows, hapart⟩ := drive_pulses_never_overlap
    [(exactLowerer, turn), (exactLowerer, turn)]
    (fun run hrun => by rcases List.mem_pair.mp hrun with rfl | rfl <;> exact extended_exactLowerer) s hs
  have htime : (Ledger.applyAll ∅ [.addWaveform (.drive "Q0") w, .setTime "Q0" finish]).time "Q0" =
      finish := by
    rw [Ledger.applyAll_cons, Ledger.applyAll_cons, Ledger.applyAll_nil, Ledger.time_apply_setTime,
      if_pos rfl]
  obtain ⟨_, _, hafter, -, hw⟩ := hwindows [] "Q0" w _ hlog
  cases hafter
  obtain ⟨_, _, hafter', -, hw'⟩ :=
    hwindows [.addWaveform (.drive "Q0") w, .setTime "Q0" finish] "Q0" w' _ hlog
  cases hafter'
  have honce := hapart "Q0" [] w finish _ [.addWaveform (.drive "Q0") w, .setTime "Q0" finish] w'
    finish' _ hlog hlog (Nat.zero_lt_succ _)
  rw [htime] at hw' honce
  exact ⟨s, w, finish, w', finish', hs, hlog, hw, hw', honce⟩

end StandardGates

end PulseControl
