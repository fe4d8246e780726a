import PulseControl.Proofs.Param.Provision
import PulseControl.Proofs.StandardGates.Stages

/-!
# What the gates of the library refuse

A gate is described several times over: by its signature, by the parameters that it declares, and by what
its procedure does. Nothing makes these agree but care. Here they do: once a call has passed the check of
the signature and the parameters have been resolved, whatever was overridden, every target and argument
that the procedure looks up is there, every parameter has a value of the type that is read, and every
string names what it is taken for.

What is left are refusals of the value of an argument, which no signature can express. A measurement wants
a classical bit, and a delay a time that is not negative.

* `PulseControl.StandardGates.Refused` – the calls that are refused, and the error;
* `PulseControl.DriveRotation.Pulse.exists_ofParams` and the like – the parameters of each procedure;
* `PulseControl.DriveRotation.exists_synthesize` and the like – the procedures that refuse nothing;
* `PulseControl.Readout.synthesize_eq_error`, `PulseControl.Delay.synthesize_eq_error` – the two that do;
* `PulseControl.StandardGates.synthesis_fails_only_if_refused` – the primitive gates of a registry.
-/

namespace PulseControl

variable {α : Type} [Scalar α]

/-- **The calls that a gate of the library refuses**, and the error that they are refused with. -/
inductive StandardGates.Refused (call : GateCall α) : GateError α → Prop where
  /-- The bit of a measurement has a fractional part. -/
  | fractional {x : α} : call.key = .plain "Measure" → call.args = [x] →
    (x - Scalar.floor x == 0) = false →
    Refused call (.invalidArgument (.plain "Measure") (.declared "cbit") (.notWhole x))
  /-- The bit of a measurement is whole and lies above the greatest one. -/
  | outOfRange {x : α} : call.key = .plain "Measure" → call.args = [x] →
    (x - Scalar.floor x == 0) = true → ¬x < 0 → Scalar.ofNat Readout.maxBit < x →
    Refused call (.invalidArgument (.plain "Measure") (.declared "cbit") (.outOfRange x))
  /-- The time of a delay is negative. -/
  | negative {x : α} : call.key = .plain "Delay" → call.args = [x] → x < 0 →
    Refused call (.invalidArgument (.plain "Delay") (.declared "duration") (.negativeTime x))

theorem StandardGates.Refused.measures_or_delays {call : GateCall α} {e : GateError α}
    (h : Refused call e) : call.key = .plain "Measure" ∨ call.key = .plain "Delay" := by
  cases h with
  | fractional hkey => exact Or.inl hkey
  | outOfRange hkey => exact Or.inl hkey
  | negative hkey => exact Or.inr hkey

/-! ### Targets and arguments -/

section Calls

variable {call : GateCall α} {s : Signature} {i : Nat}

/-- A call that passes its check has the targets that its signature demands. -/
theorem GateCall.exists_target (h : s.check call = .ok ()) (hi : i < s.arity.least) :
    ∃ q, (call.target i : Except (GateError α) Qubit) = .ok q := by
  have hlt := Nat.lt_of_lt_of_le hi (Signature.least_le_of_check h)
  exact ⟨call.targets[i], target_eq_ok.mpr (List.getElem?_eq_getElem hlt)⟩

/-- A call that passes its check has the arguments that its signature demands. -/
theorem GateCall.exists_argument (h : s.check call = .ok ()) (hi : i < s.requiredCount) :
    ∃ x, call.argument i = .ok x := by
  have hlt := Nat.lt_of_lt_of_le hi (Signature.requiredCount_le_of_check h)
  exact ⟨call.args[i], by rw [argument, List.getElem?_eq_getElem hlt]⟩

end Calls

/-! ### The procedures

What a procedure reads is found one parameter after the other. That the schema has each of them, with a
default and of the type that is read, is a computation. -/

variable {call : GateCall α} {params : Params α} {e : GateError α}

theorem DriveRotation.Pulse.exists_ofParams (hparams : schema.Resolved call.key params) (theta phi : α) :
    ∃ p, Pulse.ofParams params theta phi = .ok p := by
  obtain ⟨hschema, overrides, hres⟩ := hparams
  obtain ⟨shape, hshape⟩ := ParamSchema.exists_pulseShape hschema hres "shape" rfl
  have htable := ParamSchema.exists_table hschema hres
  obtain ⟨amp, hamp⟩ := htable "amp" rfl
  obtain ⟨duration, hduration⟩ := htable "duration" rfl
  obtain ⟨phase, hphase⟩ := htable "phase" rfl
  have hfloat := ParamSchema.exists_float hschema hres
  obtain ⟨frequency, hfrequency⟩ := hfloat "frequency" rfl
  obtain ⟨alpha, halpha⟩ := hfloat "alpha" rfl
  obtain ⟨beta, hbeta⟩ := hfloat "beta" rfl
  obtain ⟨delta, hdelta⟩ := hfloat "delta" rfl
  obtain ⟨buffer, hbuffer⟩ := hfloat "buffer" rfl
  simp only [Pulse.ofParams, hshape, hamp, hduration, hphase, hfrequency, halpha, hbeta, hdelta,
    hbuffer, Except.bind_ok]
  exact ⟨_, rfl⟩

theorem DriveRotation.exists_synthesize (h : (procedure (α := α)).signature.check call = .ok ())
    (hparams : schema.Resolved call.key params) :
    ∃ s, procedure.synthesize call params = .ok s := by
  obtain ⟨q, hq⟩ := GateCall.exists_target h Nat.one_pos
  obtain ⟨theta, htheta⟩ := GateCall.exists_argument h Nat.two_pos
  obtain ⟨phi, hphi⟩ := GateCall.exists_argument h Nat.one_lt_two
  obtain ⟨p, hp⟩ := Pulse.exists_ofParams hparams theta phi
  simp only [procedure, hq, htheta, hphi, hp, Except.bind_ok]
  split
  · exact ⟨_, rfl⟩
  · exact ⟨_, rfl⟩

theorem CrossResonance.Pulse.exists_ofParams (hparams : schema.Resolved call.key params) :
    ∃ p : Pulse α, Pulse.ofParams params = .ok p := by
  obtain ⟨hschema, overrides, hres⟩ := hparams
  obtain ⟨shape, hshape⟩ := ParamSchema.exists_edgeShape hschema hres "edge_type" rfl
  have hfloat := ParamSchema.exists_float hschema hres
  obtain ⟨duration, hduration⟩ := hfloat "duration" rfl
  obtain ⟨frequency, hfrequency⟩ := hfloat "frequency" rfl
  obtain ⟨edge, hedge⟩ := hfloat "edge" rfl
  obtain ⟨amp1, hamp1⟩ := hfloat "amp1" rfl
  obtain ⟨amp2, hamp2⟩ := hfloat "amp2" rfl
  obtain ⟨drag, hdrag⟩ := hfloat "drag" rfl
  obtain ⟨skew, hskew⟩ := hfloat "skew" rfl
  obtain ⟨globalPhase, hglobal⟩ := hfloat "global_phase" rfl
  obtain ⟨relativePhase, hrelative⟩ := hfloat "relative_phase" rfl
  obtain ⟨phi1, hphi1⟩ := hfloat "phi1" rfl
  obtain ⟨phi2, hphi2⟩ := hfloat "phi2" rfl
  obtain ⟨buffer, hbuffer⟩ := hfloat "buffer" rfl
  simp only [Pulse.ofParams, hshape, hduration, hfrequency, hedge, hamp1, hamp2, hdrag, hskew,
    hglobal, hrelative, hphi1, hphi2, hbuffer, Except.bind_ok]
  exact ⟨_, rfl⟩

theorem CrossResonance.exists_synthesize {variant : Variant}
    (h : (procedure (α := α) variant).signature.check call = .ok ())
    (hparams : schema.Resolved call.key params) :
    ∃ s, (procedure variant).synthesize call params = .ok s := by
  obtain ⟨p, hp⟩ := Pulse.exists_ofParams hparams
  obtain ⟨control, hcontrol⟩ := GateCall.exists_target h Nat.two_pos
  obtain ⟨target, htarget⟩ := GateCall.exists_target h Nat.one_lt_two
  simp only [procedure, hp, hcontrol, htarget, Except.bind_ok]
  cases variant with
  | direct => exact ⟨_, rfl⟩
  | echoed => exact ⟨_, rfl⟩

theorem FluxPulse.Pulse.exists_ofParams (hparams : schema.Resolved call.key params) :
    ∃ p : Pulse α, Pulse.ofParams params = .ok p := by
  obtain ⟨hschema, overrides, hres⟩ := hparams
  have hfloat := ParamSchema.exists_float hschema hres
  obtain ⟨duration, hduration⟩ := hfloat "duration" rfl
  obtain ⟨amp1, hamp1⟩ := hfloat "amp1" rfl
  obtain ⟨amp2, hamp2⟩ := hfloat "amp2" rfl
  obtain ⟨ampc, hampc⟩ := hfloat "ampc" rfl
  obtain ⟨edge, hedge⟩ := hfloat "edge" rfl
  obtain ⟨buffer, hbuffer⟩ := hfloat "buffer" rfl
  obtain ⟨phi1, hphi1⟩ := hfloat "phi1" rfl
  obtain ⟨phi2, hphi2⟩ := hfloat "phi2" rfl
  simp only [Pulse.ofParams, hduration, hamp1, hamp2, hampc, hedge, hbuffer, hphi1, hphi2,
    Except.bind_ok]
  exact ⟨_, rfl⟩

theorem FluxPulse.exists_synthesize (h : (procedure (α := α)).signature.check call = .ok ())
    (hparams : schema.Resolved call.key params) :
    ∃ s, procedure.synthesize call params = .ok s := by
  obtain ⟨p, hp⟩ := Pulse.exists_ofParams hparams
  obtain ⟨a, ha⟩ := GateCall.exists_target h Nat.two_pos
  obtain ⟨b, hb⟩ := GateCall.exists_target h Nat.one_lt_two
  simp only [procedure, ha, hb, hp, Except.bind_ok]
  exact ⟨_, rfl⟩

theorem PhaseShift.exists_synthesize
    (h : (PhaseShift.procedure (α := α)).signature.check call = .ok ()) :
    ∃ s, PhaseShift.procedure.synthesize call params = .ok s := by
  obtain ⟨q, hq⟩ := GateCall.exists_target h Nat.one_pos
  obtain ⟨theta, htheta⟩ := GateCall.exists_argument h Nat.one_pos
  simp only [PhaseShift.procedure, hq, htheta, Except.bind_ok]
  exact ⟨_, rfl⟩

/-! #### Measurements and delays -/

open StandardGates (Refused)

theorem Readout.Pulse.exists_ofParams (hparams : schema.Resolved call.key params) :
    ∃ p : Pulse α, Pulse.ofParams params = .ok p := by
  obtain ⟨hschema, overrides, hres⟩ := hparams
  have hstr := ParamSchema.exists_str hschema hres
  obtain ⟨signal, hsignal⟩ := hstr "signal" rfl
  obtain ⟨weight, hweight⟩ := hstr "weight" rfl
  have hfloat := ParamSchema.exists_float hschema hres
  obtain ⟨duration, hduration⟩ := hfloat "duration" rfl
  obtain ⟨amp, hamp⟩ := hfloat "amp" rfl
  obtain ⟨frequency, hfrequency⟩ := hfloat "frequency" rfl
  obtain ⟨bias, hbias⟩ := hfloat "bias" rfl
  obtain ⟨ringUpAmp, hringUpAmp⟩ := hfloat "ring_up_amp" rfl
  obtain ⟨ringUpTime, hringUpTime⟩ := hfloat "ring_up_time" rfl
  obtain ⟨edge, hedge⟩ := hfloat "ring_edge_time" rfl
  simp only [Pulse.ofParams, hsignal, hweight, hduration, hamp, hfrequency, hbias, hringUpAmp,
    hringUpTime, hedge, Except.bind_ok]
  exact ⟨_, rfl⟩

/-- A measurement fails as the reading of its bit does. -/
theorem Readout.synthesize_eq_error_of_bit (h : (procedure (α := α)).signature.check call = .ok ())
    (hparams : schema.Resolved call.key params) :
    procedure.synthesize call params = .error e ↔ BitChoice.ofCall call = .error e := by
  obtain ⟨p, hp⟩ := Pulse.exists_ofParams hparams
  obtain ⟨q, hq⟩ := GateCall.exists_target h Nat.one_pos
  simp only [procedure, hq, hp, Except.bind_ok]
  rw [Except.bind_eq_error]
  refine or_iff_left ?_
  rintro ⟨choice, -, hdone⟩
  cases hdone

/-- The bit of a measurement that has passed its check is refused where the call is. -/
theorem Readout.BitChoice.ofCall_eq_error (hkey : call.key = .plain "Measure")
    (h : (procedure (α := α)).signature.check call = .ok ()) :
    ofCall call = .error e ↔ Refused call e := by
  have hother : call.key ≠ .plain "Delay" := by
    rw [hkey]
    decide
  rcases Signature.args_of_check rfl h with ⟨hargs, -⟩ | ⟨x, hargs, hfinite⟩
  · -- without an argument there is no bit to refuse
    rw [ofCall, hargs]
    refine iff_of_false (fun h => nomatch h) fun hrefused => ?_
    cases hrefused with
    | fractional _ hx => cases hargs.symm.trans hx
    | outOfRange _ hx => cases hargs.symm.trans hx
    | negative hdelay => exact hother hdelay
  · rw [ofCall, hargs, hkey]
    dsimp only [List.head?_cons]
    constructor
    · intro hfail
      split at hfail
      · next hwhole =>
        cases hfail
        rcases hwhole with hinf | hfractional
        · exact absurd hfinite hinf
        · exact .fractional hkey hargs (Bool.eq_false_iff.mpr hfractional)
      next hwhole =>
      split at hfail
      · cases hfail
      next hpos =>
      split at hfail
      · next habove =>
        cases hfail
        rw [not_or, not_not, not_not] at hwhole
        exact .outOfRange hkey hargs hwhole.2 hpos habove
      · cases hfail
    · intro hrefused
      cases hrefused with
      | fractional _ hx hfractional =>
        cases hargs.symm.trans hx
        rw [if_pos (Or.inr (Bool.eq_false_iff.mp hfractional))]
      | outOfRange _ hx hwhole hpos habove =>
        cases hargs.symm.trans hx
        have hnot : ¬(¬Scalar.isFinite x = true ∨ ¬(x - Scalar.floor x == 0) = true) := by
          rw [not_or, not_not, not_not]
          exact ⟨hfinite, hwhole⟩
        rw [if_neg hnot, if_neg hpos, if_pos habove]
      | negative hdelay => exact absurd hdelay hother

/-- **A measurement fails** only for a bit that is none. -/
theorem Readout.synthesize_eq_error (hkey : call.key = .plain "Measure")
    (h : (procedure (α := α)).signature.check call = .ok ())
    (hparams : schema.Resolved call.key params) :
    procedure.synthesize call params = .error e ↔ Refused call e :=
  (synthesize_eq_error_of_bit h hparams).trans (BitChoice.ofCall_eq_error hkey h)

/-- **A delay fails** only for a negative time. -/
theorem Delay.synthesize_eq_error (hkey : call.key = .plain "Delay")
    (h : (Delay.procedure (α := α)).signature.check call = .ok ()) :
    Delay.procedure.synthesize call params = .error e ↔ Refused call e := by
  have hother : call.key ≠ .plain "Measure" := by
    rw [hkey]
    decide
  obtain ⟨q, hq⟩ := GateCall.exists_target h Nat.one_pos
  obtain ⟨-, hrequired⟩ | ⟨x, hargs, hfinite⟩ := Signature.args_of_check rfl h
  · cases hrequired
  have hx : call.argument 0 = .ok x := by rw [GateCall.argument, hargs]; rfl
  simp only [Delay.procedure, hq, hx, Except.bind_ok, hkey]
  constructor
  · intro hfail
    split at hfail
    · next hbad =>
      cases hfail
      rcases hbad with hinf | hneg
      · exact absurd hfinite hinf
      · exact .negative hkey hargs hneg
    · cases hfail
  · intro hrefused
    cases hrefused with
    | fractional hmeasure => exact absurd hmeasure hother
    | outOfRange hmeasure => exact absurd hmeasure hother
    | negative _ hy hneg =>
      cases hargs.symm.trans hy
      rw [if_pos (Or.inr hneg)]
      rfl

/-! ### The primitive gates of the library -/

namespace StandardGates

/-- Among the primitive gates, the measurement and the delay are told by their argument. -/
theorem key_iff_of_mem {key : GateKey} {definition : GateDefinition α}
    (hmem : (key, definition) ∈ primitives (α := α)) :
    (key = .plain "Measure" ↔ definition.signature.argNames = ["cbit"]) ∧
      (key = .plain "Delay" ↔ definition.signature.argNames = ["duration"]) := by
  have hall : (primitives (α := α)).all (fun entry =>
      (entry.1 = .plain "Measure" ↔ entry.2.signature.argNames = ["cbit"]) ∧
        (entry.1 = .plain "Delay" ↔ entry.2.signature.argNames = ["duration"])) = true := rfl
  exact of_decide_eq_true (List.all_eq_true.mp hall _ hmem)

/-- **A procedure of the library** fails on a call that passes the check of its signature only where the
call is refused. -/
theorem primitives_eq_error {key : GateKey} {schema : ParamSchema α} {procedure : Procedure α}
    (hmem : (key, .primitive schema procedure) ∈ primitives (α := α)) (hkey : call.key = key)
    (h : procedure.signature.check call = .ok ()) (hparams : schema.Resolved call.key params) :
    procedure.synthesize call params = .error e ↔ Refused call e := by
  obtain ⟨hmeasure, hdelay⟩ := key_iff_of_mem hmem
  -- a procedure that always succeeds is that of another gate, of which no call is refused
  have htotal : procedure.signature.argNames ∉ [["cbit"], ["duration"]] →
      (∃ s, procedure.synthesize call params = .ok s) →
      (procedure.synthesize call params = .error e ↔ Refused call e) := by
    rintro hother ⟨s, hs⟩
    simp only [List.mem_cons, List.not_mem_nil, or_false, not_or] at hother
    obtain ⟨hcbit, hduration⟩ := hother
    refine iff_of_false (fun hfail => nomatch hs.symm.trans hfail) fun hrefused => ?_
    rcases hrefused.measures_or_delays with hname | hname
    · exact hcbit (hmeasure.mp (hkey.symm.trans hname))
    · exact hduration (hdelay.mp (hkey.symm.trans hname))
  cases standard_of_mem hmem with
  | rotation => exact htotal (of_decide_eq_false rfl) (DriveRotation.exists_synthesize h hparams)
  | readout => exact Readout.synthesize_eq_error hkey h hparams
  | cross => exact htotal (of_decide_eq_false rfl) (CrossResonance.exists_synthesize h hparams)
  | flux => exact htotal (of_decide_eq_false rfl) (FluxPulse.exists_synthesize h hparams)
  | phase => exact htotal (of_decide_eq_false rfl) (PhaseShift.exists_synthesize h)
  | delay => exact Delay.synthesize_eq_error (hkey.trans (hdelay.mpr rfl)) h
  | barrier => exact htotal (of_decide_eq_false rfl) ⟨_, rfl⟩

/-- **Once its parameters are resolved, a gate of the library fails only for its bit or its time.** In a
registry of the library and further compound gates, let the overrides for a primitive gate be resolved and
a call of it pass its check. Then the synthesis succeeds, unless the call measures into a bit that is
fractional or too large, or delays by a negative time, and these it refuses with an error about just that
argument. -/
theorem synthesis_fails_only_if_refused {r : Registry α} (h : Extended r) {schema : ParamSchema α}
    {procedure : Procedure α} {overrides : ParamValues α}
    (hcheck : r.checkCall call = .ok (.primitive schema procedure))
    (hres : r.resolve call.key overrides = .ok params) :
    ((∃ s, r.synthesize call params = .ok s) ↔ ¬∃ e, Refused call e) ∧
      ∀ e, r.synthesize call params = .error e ↔ Refused call e := by
  obtain ⟨hget, hfits⟩ := Registry.checkCall_eq_ok.mp hcheck
  have hvalid := Registry.Builder.validate_of_checkDefinition (h.of_get? hget).2
  have hparams : schema.Resolved call.key params :=
    ⟨ParamSchema.validate_eq_ok.mp hvalid, overrides,
      (Registry.resolve_primitive hget overrides).symm.trans hres⟩
  have herror : ∀ e, r.synthesize call params = .error e ↔ Refused call e := by
    intro e
    rw [Registry.synthesize_primitive hget]
    exact primitives_eq_error (h.primitive_mem hget) rfl hfits hparams
  refine ⟨?_, herror⟩
  simp only [← herror]
  cases r.synthesize call params with
  | ok s => simp
  | error e => simp

/-- A rotation of one qubit. -/
def rotateOnce : GateCall Float := ⟨.plain "rfUnitary", ["Q0"], [1, 0]⟩

/-- Overrides of a rotation: another shape, another table, and a whole number for a float. -/
def squareRotation : ParamValues Float :=
  (((∅ : ParamValues Float).insert "shape" (.str "square")).insert
    "amp" (.table [[0, 1], [0, 0.5]])).insert "delta" (.int 1000)

/-- A delay into the past. -/
def delayBack : GateCall Float := ⟨.plain "Delay", ["Q0"], [-1]⟩

/-- With its parameters overridden a rotation still succeeds, and a delay into the past is refused. -/
theorem rotation_succeeds_and_delay_refuses :
    (∃ params, floatRegistry.resolve (.plain "rfUnitary") squareRotation = .ok params ∧
      ∃ s, floatRegistry.synthesize rotateOnce params = .ok s) ∧
    ∃ params, floatRegistry.resolve (.plain "Delay") ∅ = .ok params ∧
      floatRegistry.synthesize delayBack params =
        .error (.invalidArgument (.plain "Delay") (.declared "duration") (.negativeTime (-1))) := by
  constructor
  · have hok : (floatRegistry.resolve (.plain "rfUnitary") squareRotation).isOk = true := by
      decide +kernel
    obtain ⟨params, hres⟩ := Except.isOk_eq_true.mp hok
    have hget : floatRegistry.get? (.plain "rfUnitary") =
        some (.primitive DriveRotation.schema DriveRotation.procedure) :=
      extended_floatRegistry.get?_of_mem (by simp [definitions, primitives])
    have hcheck : floatRegistry.checkCall rotateOnce = .ok _ :=
      Registry.checkCall_eq_ok.mpr
        ⟨hget, Signature.check_eq_ok.mpr ⟨rfl, by decide, rfl, by decide +kernel⟩⟩
    refine ⟨params, hres, ?_⟩
    refine (synthesis_fails_only_if_refused extended_floatRegistry hcheck hres).1.mpr ?_
    rintro ⟨e, hrefused⟩
    have hother : ¬(rotateOnce.key = .plain "Measure" ∨ rotateOnce.key = .plain "Delay") := by decide
    exact hother hrefused.measures_or_delays
  · have hok : (floatRegistry.resolve (.plain "Delay") ∅).isOk = true := by decide +kernel
    obtain ⟨params, hres⟩ := Except.isOk_eq_true.mp hok
    have hget : floatRegistry.get? (.plain "Delay") = some (.primitive [] Delay.procedure) :=
      extended_floatRegistry.get?_of_mem (by simp [definitions, primitives])
    have hcheck : floatRegistry.checkCall delayBack = .ok _ :=
      Registry.checkCall_eq_ok.mpr
        ⟨hget, Signature.check_eq_ok.mpr ⟨rfl, by decide, rfl, by decide +kernel⟩⟩
    refine ⟨params, hres, ?_⟩
    refine ((synthesis_fails_only_if_refused extended_floatRegistry hcheck hres).2 _).mpr ?_
    exact .negative rfl rfl (by decide +kernel)

end StandardGates

end PulseControl
