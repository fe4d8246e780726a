import PulseControl.Proofs.Ledger.Latest
import PulseControl.Proofs.Schedule.Along
import PulseControl.Proofs.StandardGates.Stages

/-!
# Cursors never move back

Every gate of the library that sets cursors sets them to one time, which is the cursor of a qubit or the
latest of several, and something added to it. What is added comes from parameters that refuse negative
numbers, from a table whose value is looked at before anything is played, or from an argument that is
checked. In exact arithmetic the new time is then no earlier than any of the cursors that it replaces.

* `PulseControl.Ledger.Forward` – an instruction moves no cursor back;
* `PulseControl.Ledger.SetsTo.along` – instructions that set cursors to one common time;
* `PulseControl.StandardGates.Part.forward` – every gate of the library moves forward, whatever its
  parameters;
* `PulseControl.StandardGates.cursors_never_decrease` – so do the library and any compound gates, along
  any sequence of calls.
-/

namespace PulseControl

namespace Ledger

variable {α : Type} [ExactScalar α] {l : Ledger α} {q r : Qubit} {value : α}
  {is : List (Instruction α)}

/-! ### Cursors -/

/-- An instruction that sets no cursor leaves all of them alone. -/
theorem time_apply_of_ne {i : Instruction α} (h : ∀ q value, i ≠ .setTime q value) (r : Qubit) :
    (l.apply i).time r = l.time r := by
  cases i with
  | addWaveform | expand => rfl
  | setState update =>
    cases update with
    | time q value => exact absurd rfl (h q value)
    | phase | bias | cbit => rfl

/-- An exact cursor is a number. -/
theorem cursorsDefined (l : Ledger α) : l.CursorsDefined := fun q => ExactScalar.defined (l.time q)

/-- **The end** is the latest cursor, and no earlier than 0. -/
theorem endTime_le {bound : α} : l.endTime ≤ bound ↔ 0 ≤ bound ∧ ∀ q, l.time q ≤ bound := by
  rw [endTime, Std.ExtTreeMap.foldl_eq_foldl_toList,
    Scalar.foldl_max_le (ExactScalar.defined 0) fun entry _ => ExactScalar.defined entry.2]
  refine and_congr_right fun hbound => ⟨fun h q => ?_, fun h entry hentry => ?_⟩
  · rw [time]
    cases hget : l.times[q]? with
    | none => exact hbound
    | some t => exact h (q, t) (Std.ExtTreeMap.mem_toList_iff_getElem?_eq_some.mpr hget)
  · have htime := h entry.1
    rwa [time, Std.ExtTreeMap.mem_toList_iff_getElem?_eq_some.mp hentry] at htime

/-- No cursor is later than the end. -/
theorem time_le_endTime (l : Ledger α) (q : Qubit) : l.time q ≤ l.endTime :=
  (endTime_le.mp le_rfl).2 q

/-- **An instruction moves no cursor back.** -/
def Forward (l : Ledger α) : Instruction α → Prop
  | .setState (.time q value) => l.time q ≤ value
  | _ => True

theorem forward_of_ne {i : Instruction α} (h : ∀ q value, i ≠ .setTime q value) : l.Forward i := by
  cases i with
  | addWaveform | expand => trivial
  | setState update =>
    cases update with
    | time q value => exact absurd rfl (h q value)
    | phase | bias | cbit => trivial

/-- An instruction that moves no cursor back leaves no cursor behind where it was. -/
theorem Forward.time_le {i : Instruction α} (h : l.Forward i) (r : Qubit) :
    l.time r ≤ (l.apply i).time r := by
  by_cases hset : ∃ q value, i = .setTime q value
  · obtain ⟨q, value, rfl⟩ := hset
    rw [time_apply_setTime]
    split
    · next hq => exact hq ▸ h
    · exact le_refl _
  · have hne : ∀ q value, i ≠ .setTime q value := fun q value hi => hset ⟨q, value, hi⟩
    exact (time_apply_of_ne hne r).ge

/-- **Along instructions that move no cursor back** every cursor only grows. -/
theorem monotone_time (h : l.Along Forward is) (r : Qubit) :
    Monotone fun n => (l.applyAll (is.take n)).time r := by
  refine monotone_nat_of_le_succ fun n => ?_
  rcases Nat.lt_or_ge n is.length with hn | hn
  · -- the instruction at place `n` is what lies between
    have hsplit : is = is.take n ++ is[n] :: is.drop (n + 1) := by
      rw [← List.drop_eq_getElem_cons hn, List.take_append_drop]
    have hforward := along_iff.mp h _ _ _ hsplit
    rw [List.take_succ_eq_append_getElem hn, applyAll_append]
    exact hforward.time_le r
  · rw [List.take_of_length_le hn, List.take_of_length_le (Nat.le_succ_of_le hn)]

/-- Some instructions set cursors to one time only, and that is no earlier than the cursors that it
replaces. -/
def SetsTo (l : Ledger α) (value : α) (is : List (Instruction α)) : Prop :=
  ∀ q v, .setTime q v ∈ is → v = value ∧ l.time q ≤ value

/-- **Instructions that set cursors to one common time** move none of them back. -/
theorem SetsTo.along (h : l.SetsTo value is) : l.Along Forward is := by
  induction is generalizing l with
  | nil => exact along_nil l
  | cons i is ih =>
    have hrest : l.SetsTo value is := fun q v hv => h q v (List.mem_cons_of_mem _ hv)
    by_cases hset : ∃ q v, i = .setTime q v
    · obtain ⟨q, v, rfl⟩ := hset
      obtain ⟨rfl, hle⟩ := h q v List.mem_cons_self
      refine ⟨hle, ih fun r w hw => ⟨(hrest r w hw).1, ?_⟩⟩
      rw [time_apply_setTime]
      split
      · exact le_refl _
      · exact (hrest r w hw).2
    · have hne : ∀ q v, i ≠ .setTime q v := fun q v hi => hset ⟨q, v, hi⟩
      refine ⟨forward_of_ne hne, ih fun r w hw => ⟨(hrest r w hw).1, ?_⟩⟩
      rw [time_apply_of_ne hne]
      exact (hrest r w hw).2

end Ledger

/-! ### The procedures -/

variable {α : Type} [ExactScalar α] {schema : ParamSchema α} {key : GateKey} {params : Params α}
  {call : GateCall α}

/-- A parameter that refuses negative numbers is at least zero. -/
theorem ParamSchema.Resolved.nonneg (h : schema.Resolved key params) {name : String}
    (hname : schema.refusesNegative name = true) {x : α} (hx : params.float name = .ok x) :
    0 ≤ x := by
  obtain ⟨hschema, overrides, hresolve⟩ := h
  exact not_lt.mp (ParamSchema.not_neg_of_resolve hschema hresolve hname hx)

/-! #### Rotations -/

namespace DriveRotation

theorem buffer_of_params {theta phi : α} {p : Pulse α} (h : Pulse.ofParams params theta phi = .ok p) :
    params.float "buffer" = .ok p.buffer := by
  simp only [Pulse.ofParams, Except.bind_eq_ok] at h
  obtain ⟨shape, -, amp, -, duration, -, phase, -, frequency, -, alpha, -, beta, -, delta, -, buffer,
    hbuffer, h⟩ := h
  cases h
  exact hbuffer

theorem play_setsTo {p : Pulse α} (hduration : 0 ≤ p.duration) (hbuffer : 0 ≤ p.buffer) (q : Qubit)
    (l : Ledger α) : l.SetsTo (l.time q + p.duration + p.buffer) (p.play q l) := by
  intro r v hv
  simp only [Pulse.play, Instruction.setTime, List.mem_cons, List.not_mem_nil, or_false,
    reduceCtorEq, false_or, Instruction.setState.injEq, StateUpdate.time.injEq] at hv
  obtain ⟨rfl, rfl⟩ := hv
  exact ⟨rfl, le_add_of_le_of_nonneg (le_add_of_nonneg_right hduration) hbuffer⟩

/-- A rotation that plays has a duration above zero and a buffer that is not negative. -/
theorem times_nonneg (hparams : DriveRotation.schema.Resolved key params) {theta phi : α} {p : Pulse α}
    (hp : Pulse.ofParams params theta phi = .ok p) (hplays : p.isEmpty = false) :
    0 ≤ p.duration ∧ 0 ≤ p.buffer := by
  have hduration : ¬p.duration ≤ 0 := fun hle => by simp [Pulse.isEmpty, hle] at hplays
  exact ⟨(not_le.mp hduration).le, hparams.nonneg rfl (buffer_of_params hp)⟩

end DriveRotation

/-! #### Readout -/

namespace Readout

theorem times_of_params {p : Pulse α} (h : Pulse.ofParams params = .ok p) :
    params.float "duration" = .ok p.duration ∧ params.float "ring_edge_time" = .ok p.edge := by
  simp only [Pulse.ofParams, Except.bind_eq_ok] at h
  obtain ⟨duration, hduration, amp, -, frequency, -, bias, -, signal, -, weight, -, ringUpAmp, -,
    ringUpTime, -, edge, hedge, h⟩ := h
  cases h
  exact ⟨hduration, hedge⟩

/-- The times of a measurement are not negative. -/
theorem times_nonneg (hparams : Readout.schema.Resolved key params) {p : Pulse α}
    (hp : Pulse.ofParams params = .ok p) : 0 ≤ p.duration ∧ 0 ≤ p.edge := by
  obtain ⟨hduration, hedge⟩ := times_of_params hp
  exact ⟨hparams.nonneg rfl hduration, hparams.nonneg rfl hedge⟩

theorem play_setsTo {p : Pulse α} (hduration : 0 ≤ p.duration) (choice : BitChoice) (q : Qubit)
    (l : Ledger α) : l.SetsTo (l.time q + p.duration) (play p choice q l) := by
  intro r v hv
  rcases of_mem_play hv with ⟨w, h⟩ | h | ⟨bit, -, h⟩ | h | h
  · cases h
  · cases h
  · cases h
  · cases h
    exact ⟨rfl, le_add_of_nonneg_right hduration⟩
  · cases h

end Readout

/-! #### Flux pulses -/

namespace FluxPulse

theorem times_of_params {p : Pulse α} (h : Pulse.ofParams params = .ok p) :
    params.float "duration" = .ok p.duration ∧ params.float "edge" = .ok p.edge ∧
      params.float "buffer" = .ok p.buffer := by
  simp only [Pulse.ofParams, Except.bind_eq_ok] at h
  obtain ⟨duration, hduration, amp1, -, amp2, -, ampc, -, edge, hedge, buffer, hbuffer, phi1, -, phi2,
    -, h⟩ := h
  cases h
  exact ⟨hduration, hedge, hbuffer⟩

/-- The times of a flux pulse are not negative. -/
theorem times_nonneg (hparams : FluxPulse.schema.Resolved key params) {p : Pulse α}
    (hp : Pulse.ofParams params = .ok p) : 0 ≤ p.duration ∧ 0 ≤ p.edge ∧ 0 ≤ p.buffer := by
  obtain ⟨hduration, hedge, hbuffer⟩ := times_of_params hp
  exact ⟨hparams.nonneg rfl hduration, hparams.nonneg rfl hedge, hparams.nonneg rfl hbuffer⟩

theorem play_setsTo {p : Pulse α} (hduration : 0 ≤ p.duration) (hbuffer : 0 ≤ p.buffer) (a b : Qubit)
    (l : Ledger α) :
    l.SetsTo (l.maxTime [a, b] + p.buffer + p.duration + p.buffer) (play p a b l) := by
  intro r v hv
  have hlate : ∀ q ∈ [a, b], l.time q ≤ l.maxTime [a, b] + p.buffer + p.duration + p.buffer := by
    intro q hq
    have hstart := le_add_of_le_of_nonneg (l.cursorsDefined.time_le_maxTime hq) hbuffer
    exact le_add_of_le_of_nonneg (le_add_of_le_of_nonneg hstart hduration) hbuffer
  simp only [play, List.mem_cons, List.not_mem_nil, or_false] at hv
  rcases hv with hv | hv | hv | hv | hv | hv | hv
  · cases hv
  · cases hv
  · cases hv
  · cases hv
    exact ⟨rfl, hlate _ List.mem_cons_self⟩
  · cases hv
    exact ⟨rfl, hlate _ (List.mem_cons_of_mem _ List.mem_cons_self)⟩
  · cases hv
  · cases hv

end FluxPulse

/-! #### Cross resonance -/

namespace CrossResonance

theorem times_of_params {p : Pulse α} (h : Pulse.ofParams params = .ok p) :
    params.float "duration" = .ok p.duration ∧ params.float "edge" = .ok p.edge ∧
      params.float "buffer" = .ok p.buffer := by
  simp only [Pulse.ofParams, Except.bind_eq_ok] at h
  obtain ⟨duration, hduration, frequency, -, edgeShape, -, edge, hedge, amp1, -, amp2, -, drag, -,
    skew, -, globalPhase, -, relativePhase, -, phi1, -, phi2, -, buffer, hbuffer, h⟩ := h
  cases h
  exact ⟨hduration, hedge, hbuffer⟩

/-- Both drive pulses of a pass end at one time, after the latest cursor. -/
theorem pass_setsTo {p : Pulse α} (hduration : 0 ≤ p.duration) (hedge : 0 ≤ p.edge)
    (hbuffer : 0 ≤ p.buffer) (control target : Qubit) (sign : α) (l : Ledger α) :
    l.SetsTo (p.finish (l.maxTime [control, target])) (pass p control target sign l) := by
  intro r v hv
  have hlate : ∀ q ∈ [control, target],
      l.time q ≤ p.finish (l.maxTime [control, target]) := by
    intro q hq
    have hplayed := le_add_of_le_of_nonneg (l.cursorsDefined.time_le_maxTime hq) hduration
    exact le_add_of_le_of_nonneg (le_add_of_le_of_nonneg hplayed hedge) hbuffer
  obtain ⟨q, hq, ⟨w, h⟩ | h | ⟨value, h⟩⟩ := of_mem_pass hv
  · cases h
  · cases h
    exact ⟨rfl, hlate _ hq⟩
  · cases h

/-- The times of a pass are not negative. -/
theorem times_nonneg (hparams : CrossResonance.schema.Resolved key params) {p : Pulse α}
    (hp : Pulse.ofParams params = .ok p) : 0 ≤ p.duration ∧ 0 ≤ p.edge ∧ 0 ≤ p.buffer := by
  obtain ⟨hduration, hedge, hbuffer⟩ := times_of_params hp
  exact ⟨hparams.nonneg rfl hduration, hparams.nonneg rfl hedge, hparams.nonneg rfl hbuffer⟩

end CrossResonance

/-! #### Barriers -/

/-- The cursors that a barrier sets lag behind the latest one. -/
theorem Barrier.align_setsTo (qs : List Qubit) (l : Ledger α) :
    l.SetsTo (l.maxTime qs) (align qs l) := by
  intro r v hv
  obtain ⟨q, hq, heq⟩ := of_mem_align hv
  cases heq
  exact ⟨rfl, l.cursorsDefined.time_le_maxTime hq⟩

/-! ### The library -/

namespace StandardGates

/-- **Every gate of the library moves forward**, whatever its parameters. -/
theorem Part.forward {stage : Stage α} (h : Part call params stage) (l : Ledger α) :
    l.Along Ledger.Forward (stage.block l) := by
  cases h with
  | marker => exact ⟨trivial, trivial⟩
  | rotation _ hparams hp hplays =>
    obtain ⟨hduration, hbuffer⟩ := DriveRotation.times_nonneg hparams hp hplays
    exact (DriveRotation.play_setsTo hduration hbuffer _ l).along
  | readout _ _ _ hparams hp =>
    exact (Readout.play_setsTo (Readout.times_nonneg hparams hp).1 _ _ l).along
  | pass sign _ _ hparams hp =>
    obtain ⟨hduration, hedge, hbuffer⟩ := CrossResonance.times_nonneg hparams hp
    exact (CrossResonance.pass_setsTo hduration hedge hbuffer _ _ sign l).along
  | flux _ _ hparams hp =>
    obtain ⟨hduration, -, hbuffer⟩ := FluxPulse.times_nonneg hparams hp
    exact (FluxPulse.play_setsTo hduration hbuffer _ _ l).along
  | phase => exact ⟨trivial, trivial⟩
  | delay _ hduration => exact ⟨le_add_of_nonneg_right (not_lt.mp hduration), trivial⟩
  | barrier => exact (Barrier.align_setsTo call.targets l).along

/-- **The library with any further compound gates moves forward**, under every calibration. -/
theorem Extended.steers {l : Lowerer α} (h : Extended l.registry) : l.Steers Ledger.Forward := by
  intro call params definition synthesis hparams _ hs
  obtain ⟨hpending, hparts⟩ := h.parts hparams hs
  refine ⟨hpending, fun stage hstage => ?_⟩
  have hpart := hparts stage hstage
  cases stage with
  | emit i => exact fun ledger => (hpart.forward ledger).1
  | deferred f => exact fun ledger => ⟨hpart.plain ledger, hpart.forward ledger⟩

/-- **No cursor ever moves back** in exact arithmetic. Along any calls that are run one after the other,
each with the library and any compound gates, with any calibration and options, from any ledger and with
calls that fail passed over, every cursor that is set is set to a time no earlier than the cursor at that
point, so that every cursor grows with the log. -/
theorem cursors_never_decrease (seed : Ledger α) (runs : List (Lowerer α × GateCall α))
    (h : ∀ run ∈ runs, Extended run.1.registry) (s : Schedule α)
    (hs : s = (Schedule.ofLedger seed).runEach runs) :
    (∀ before q value after, s.log = before ++ .setTime q value :: after →
      (seed.applyAll before).time q ≤ value) ∧
    ∀ q, Monotone fun n => (seed.applyAll (s.log.take n)).time q := by
  have halong : seed.Along Ledger.Forward s.log := by
    rw [hs]
    exact Schedule.along_runEach seed fun run hrun => (h run hrun).steers
  exact ⟨fun before q value after hlog => Ledger.along_iff.mp halong before _ after hlog,
    Ledger.monotone_time halong⟩

/-! ### A delay over the rational numbers -/

/-- The lowerer of the library over the rational numbers, without calibration. -/
def exactLowerer : Lowerer ℚ := ⟨(registry (α := ℚ)).toOption.getD ⟨∅, []⟩, fun _ => ∅, {}⟩

/-- A delay of one second. -/
def oneSecond : GateCall ℚ := ⟨.plain "Delay", ["Q0"], [1]⟩

theorem extended_exactLowerer : Extended exactLowerer.registry := by
  have hok : (registry (α := ℚ)).isOk = true := by decide +kernel
  obtain ⟨r, hr⟩ := Except.isOk_eq_true.mp hok
  rw [exactLowerer, hr]
  exact extended_of_registry hr

theorem get?_delay : exactLowerer.registry.get? (.plain "Delay") =
    some (.primitive [] Delay.procedure) := by
  have hkind : (exactLowerer.registry.get? (.plain "Delay")).any (fun d => !d.isCompound) = true := by
    decide +kernel
  cases hget : exactLowerer.registry.get? (.plain "Delay") with
  | none =>
    rw [hget] at hkind
    cases hkind
  | some d =>
    rw [hget] at hkind
    cases d with
    | compound signature steps => cases hkind
    | primitive schema procedure =>
      have hdelay : schema = [] ∧ procedure = Delay.procedure := by
        simpa [primitives, GateKey.plain] using extended_exactLowerer.primitive_mem hget
      rw [hdelay.1, hdelay.2]

/-- A delay of one second gives one instruction, which sets the cursor one second later. -/
theorem drain_oneSecond {first : Lowering ℚ} (h : exactLowerer.lower oneSecond ∅ = .ok first)
    (hok : first.drain.error? = none) : first.drain.instructions = [.setTime "Q0" (0 + 1)] := by
  obtain ⟨params, synthesis, -, hs, hexpands⟩ := Lowerer.expansion_of_lower rfl h hok
  rw [Registry.synthesize_primitive get?_delay] at hs
  have hdelay : Delay.procedure.synthesize oneSecond params =
      .ok (.defer fun l => [.setTime "Q0" (l.time "Q0" + 1)]) := rfl
  cases hs.symm.trans hdelay
  have hplain : Instruction.Plain [.setTime "Q0" ((0 : ℚ) + 1)] := fun i hi => by
    rw [List.mem_singleton.mp hi]
    rfl
  have hone : exactLowerer.Expands [.deferred fun l => [.setTime "Q0" (l.time "Q0" + 1)]] ∅
      [.setTime "Q0" (0 + 1)] _ := .deferred (Lowerer.expands_of_plain hplain ∅)
  exact (hexpands.deterministic hone).1

/-- The cursor of a qubit that idles moves one second forward. -/
theorem delay_moves_forward : ∃ s value,
    s = (Schedule.ofLedger ∅).runEach [(exactLowerer, oneSecond)] ∧
      s.log = [] ++ .setTime "Q0" value :: [] ∧ (Ledger.applyAll ∅ []).time "Q0" ≤ value ∧
      Monotone fun n => (Ledger.applyAll ∅ (s.log.take n)).time "Q0" := by
  have hplan : (exactLowerer.plan oneSecond).isOk = true := by decide +kernel
  obtain ⟨plan, hplan⟩ := Except.isOk_eq_true.mp hplan
  obtain ⟨first, hfirst⟩ := Lowerer.exists_lower_ok hplan ∅
  have hdecl : exactLowerer.registry.WellDeclared := extended_exactLowerer.wellDeclared
  have hok := ((Lowerer.lower_safe hdecl hfirst).drain hdecl).1
  obtain ⟨s, hs⟩ : ∃ s, s = (Schedule.ofLedger ∅).runEach [(exactLowerer, oneSecond)] := ⟨_, rfl⟩
  have hlog : s.log = [] ++ .setTime "Q0" (0 + 1) :: [] := by
    have hrun := Schedule.run_of_drain (s := Schedule.ofLedger ∅) hfirst hok
    rw [hs, ← drain_oneSecond hfirst hok]
    exact (congrArg (fun outcome => outcome.2.log) hrun).trans (Schedule.log_applyAll _ _)
  obtain ⟨hforward, hmono⟩ := cursors_never_decrease ∅ [(exactLowerer, oneSecond)]
    (fun run hrun => List.mem_singleton.mp hrun ▸ extended_exactLowerer) s hs
  exact ⟨s, 0 + 1, hs, hlog, hforward [] "Q0" _ [] hlog, hmono "Q0"⟩

end StandardGates

end PulseControl
