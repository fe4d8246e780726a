import PulseControl.Proofs.ExactScalar
import PulseControl.Proofs.Param.Reading
import PulseControl.Proofs.StandardGates.Locality

/-!
# The echoed cross resonance is composed of plain ones

The echoed variant gives four stages: a pass, a flip of the control, a pass of the opposite sign and
another flip. A pass looks at the ledger when it is reached, behind the flip that has moved the cursor of
the control and behind its own corrections of both phases. So what it gives is what a plain cross
resonance gives that is lowered on the ledger left by everything before. Both read the same pulse if their
parameters have the same values.

Opposite signs are factors of `1` and `-1` on the pulses. A factor of `1` must leave a waveform as it is,
which holds as soon as `1` compares equal to itself and not to `0`, with or without rounding.

* `PulseControl.Instruction.negated` – an instruction with the opposite pulse;
* `PulseControl.CrossResonance.pass_negated` – the pass of the opposite sign;
* `PulseControl.StandardGates.Extended.echo_ready` – an accepted echo and the calls that it is composed of;
* `PulseControl.StandardGates.echo_is_composed` – the echo and these calls one after the other.
-/

namespace PulseControl

/-! ### Pulses of the opposite sign -/

/-- **Scalars with a unit**: `1` compares equal to itself, and not to `0`. -/
class UnitScalar (α : Type) [Scalar α] : Prop where
  one_beq_zero : ((1 : α) == 0) = false
  one_beq_one : ((1 : α) == 1) = true

instance : UnitScalar Float where
  one_beq_zero := by decide +kernel
  one_beq_one := by decide +kernel

instance {α : Type} [ExactScalar α] : UnitScalar α where
  one_beq_zero := Bool.eq_false_iff.mpr fun h => one_ne_zero ((ExactScalar.beq_eq_true _ _).mp h)
  one_beq_one := (ExactScalar.beq_eq_true _ _).mpr rfl

variable {α : Type} [Scalar α]

theorem Waveform.scale_one [UnitScalar α] (w : Waveform α) : w.scale 1 = w := by
  have hzero : ¬((1 : α) == 0) = true := by
    rw [UnitScalar.one_beq_zero]
    exact Bool.false_ne_true
  unfold scale
  rw [if_neg hzero, if_pos UnitScalar.one_beq_one]

/-- **An instruction with the opposite pulse.** Only pulses are affected. -/
def Instruction.negated : Instruction α → Instruction α
  | .addWaveform channel waveform => .addWaveform channel (waveform.scale (-1))
  | .setState update => .setState update
  | .expand call => .expand call

/-- A ledger does not see the sign of a pulse. -/
theorem Ledger.applyAll_negated (l : Ledger α) (is : List (Instruction α)) :
    l.applyAll (is.map Instruction.negated) = l.applyAll is := by
  have happly (l : Ledger α) (i : Instruction α) : l.apply i.negated = l.apply i := by
    cases i <;> rfl
  induction is generalizing l with
  | nil => rfl
  | cons i is ih => rw [List.map_cons, applyAll_cons, applyAll_cons, happly, ih]

namespace CrossResonance

/-- **The pass of the opposite sign** differs from the pass in the signs of its pulses. -/
theorem pass_negated [UnitScalar α] (p : Pulse α) (control target : Qubit) (l : Ledger α) :
    pass p control target (-1) l = (pass p control target 1 l).map Instruction.negated := by
  have hunit (w : Waveform α) : (1 : α) * w = w := w.scale_one
  have hcontrol (t : α) : p.onControl l control target t (-1) =
      (p.onControl l control target t 1).map Instruction.negated := by
    rw [Pulse.onControl, Pulse.onControl]
    split
    · simp only [hunit]
      rfl
    · rfl
  have htarget (t : α) : p.onTarget l target t (-1) =
      (p.onTarget l target t 1).map Instruction.negated := by
    rw [Pulse.onTarget, Pulse.onTarget]
    split
    · simp only [hunit]
      rfl
    · rfl
  simp only [pass, hcontrol, htarget, List.map_append]
  rfl

/-- The pulse is read from the values of the parameters. -/
theorem Pulse.ofParams_of_values {params params' : Params α} {p : Pulse α}
    (h : params.values = params'.values) (hp : ofParams params = .ok p) :
    ofParams params' = .ok p := by
  have hfloat {name : String} {x : α} (hx : params.float name = .ok x) :
      params'.float name = .ok x := Params.float_of_values h hx
  simp only [ofParams, Except.bind_eq_ok] at hp ⊢
  obtain ⟨duration, hduration, frequency, hfrequency, edgeShape, hshape, edge, hedge, amp1, hamp1, amp2,
    hamp2, drag, hdrag, skew, hskew, global, hglobal, relative, hrelative, phi1, hphi1, phi2, hphi2,
    buffer, hbuffer, hp⟩ := hp
  exact ⟨duration, hfloat hduration, frequency, hfloat hfrequency, edgeShape,
    Params.edgeShape_of_values h hshape, edge, hfloat hedge, amp1, hfloat hamp1, amp2, hfloat hamp2,
    drag, hfloat hdrag, skew, hfloat hskew, global, hfloat hglobal, relative, hfloat hrelative, phi1,
    hfloat hphi1, phi2, hfloat hphi2, buffer, hfloat hbuffer, hp⟩

end CrossResonance

/-! ### Stages in front of others -/

namespace Lowerer

variable {l : Lowerer α} {stages : List (Stage α)} {is js : List (Instruction α)}
  {ledger final : Ledger α}

/-- Instructions without a marker stand for themselves, in front of other stages. -/
theorem Expands.behind_plain (h : l.Expands stages (ledger.applyAll is) js final)
    (hplain : Instruction.Plain is) : l.Expands (is.map .emit ++ stages) ledger (is ++ js) final := by
  induction is generalizing ledger with
  | nil => exact h
  | cons i is ih =>
    obtain ⟨hi, hrest⟩ := List.forall_mem_cons.mp hplain
    exact .plain hi (ih h hrest)

/-- A stage that computes no marker gives its instructions on the ledger as it is. -/
theorem Expands.behind_deferred {f : Ledger α → List (Instruction α)}
    (h : l.Expands stages (ledger.applyAll (f ledger)) js final)
    (hplain : Instruction.Plain (f ledger)) :
    l.Expands (.deferred f :: stages) ledger (f ledger ++ js) final :=
  .deferred (h.behind_plain hplain)

end Lowerer

/-! ### The echo and its parts -/

namespace StandardGates

/-- The plain cross resonance of two qubits. -/
def crossCall (a b : Qubit) : GateCall α := ⟨.plain "CR", [a, b], []⟩

/-- The echoed cross resonance of two qubits. -/
def echoCall (a b : Qubit) : GateCall α := ⟨⟨"CR", some "echo"⟩, [a, b], []⟩

/-- The flip of a qubit. -/
def flipCall (q : Qubit) : GateCall α := ⟨CrossResonance.echoGate, [q], []⟩

variable {l : Lowerer α} {a b : Qubit}

/-- **What an accepted echo is composed of.** The echo and the plain gate play one pulse if their
parameters have the same values, and where the echo is accepted, so are the plain gate and the flip. -/
theorem Extended.echo_ready (hl : Extended l.registry) {plan : Plan α}
    (hplan : l.plan (echoCall a b) = .ok plan) {params params' : Params α}
    (hecho : l.resolve (echoCall (α := α) a b).slot = .ok params)
    (hcross : l.resolve (crossCall (α := α) a b).slot = .ok params')
    (hvalues : params.values = params'.values) :
    ∃ p : CrossResonance.Pulse α,
      l.registry.synthesize (echoCall a b) params =
        .ok ⟨[.deferred (CrossResonance.pass p a b 1), .emit (.expand (flipCall a)),
          .deferred (CrossResonance.pass p a b (-1)), .emit (.expand (flipCall a))], []⟩ ∧
      l.registry.synthesize (crossCall a b) params' = .ok (.defer (CrossResonance.pass p a b 1)) ∧
      (∃ plan', l.plan (crossCall a b) = .ok plan') ∧ ∃ plan'', l.plan (flipCall a) = .ok plan'' := by
  have hget : l.registry.get? (echoCall (α := α) a b).key =
      some (.primitive CrossResonance.schema (CrossResonance.procedure .echoed)) :=
    hl.get?_of_mem (by simp [definitions, primitives, echoCall])
  have hget' : l.registry.get? (crossCall (α := α) a b).key =
      some (.primitive CrossResonance.schema (CrossResonance.procedure .direct)) :=
    hl.get?_of_mem (by simp [definitions, primitives, crossCall])
  obtain ⟨visits, hvisits, -⟩ := Lowerer.plan_eq_ok.mp hplan
  obtain ⟨room, hroom⟩ := Lowerer.exists_room_of_treePlan hvisits
  rw [hroom] at hvisits
  obtain ⟨d, params₀, below, hcheck, hparams, ⟨s, hs⟩, hbelow, -⟩ :=
    Lowerer.treePlan_succ_eq_ok.mp hvisits
  cases hparams.symm.trans hecho
  obtain ⟨hd, hfits⟩ := Registry.checkCall_eq_ok.mp hcheck
  cases hd.symm.trans hget
  have hpulses : l.registry.synthesize (echoCall a b) params =
      (CrossResonance.procedure .echoed).synthesize (echoCall a b) params :=
    Registry.synthesize_primitive hget
  have hpulses' : l.registry.synthesize (crossCall a b) params' =
      (CrossResonance.procedure .direct).synthesize (crossCall a b) params' :=
    Registry.synthesize_primitive hget'
  rw [hpulses] at hs
  obtain ⟨p, control, target, hp, hcontrol, htarget, rfl⟩ := CrossResonance.of_synthesize_echoed hs
  cases hcontrol
  cases htarget
  have hp' := CrossResonance.Pulse.ofParams_of_values hvalues hp
  have hs' : (CrossResonance.procedure .direct).synthesize (crossCall a b) params' =
      .ok (.defer (CrossResonance.pass p a b 1)) := by
    have hsteps : (CrossResonance.procedure .direct).synthesize (crossCall a b) params' =
        (CrossResonance.Pulse.ofParams params' >>= fun p =>
          .ok (.defer (CrossResonance.pass p a b 1))) := rfl
    rw [hsteps, hp', Except.bind_ok]
  refine ⟨p, hpulses.trans hs, hpulses'.trans hs', ?_, ?_⟩
  · -- the plain gate has the signature of the echo, and no steps
    obtain ⟨harity, hnodup, hargs, -⟩ := Signature.check_eq_ok.mp hfits
    have hfits' : (CrossResonance.procedure (α := α) .direct).signature.check (crossCall a b) = .ok () :=
      Signature.check_eq_ok.mpr ⟨harity, hnodup, hargs, List.forall_mem_nil _⟩
    have htree := Lowerer.treePlan_leaf (Registry.checkCall_eq_ok.mpr ⟨hget', hfits'⟩) rfl hcross
      (hpulses'.trans hs') room
    exact Lowerer.exists_plan_of_treePlan htree hroom.ge
  · -- the flip is the step of the echo, with one place less
    have hsteps : l.treesBelow room (echoCall a b) (Signature.qubits 2)
        [⟨CrossResonance.echoGate, [0], []⟩] = .ok below := hbelow
    rw [Lowerer.treesBelow_cons] at hsteps
    obtain ⟨flip, hflip, hsteps⟩ := Except.bind_eq_ok.mp hsteps
    obtain rfl : flipCall a = flip := Except.ok.inj hflip
    obtain ⟨tree, htree, -⟩ := Except.bind_eq_ok.mp hsteps
    exact Lowerer.exists_plan_of_treePlan htree (by omega)

/-- A planned call has an expansion on any ledger, and what is shown of it is lowered. -/
theorem Extended.exists_expansion (hl : Extended l.registry) {call : GateCall α} {plan : Plan α}
    (hplan : l.plan call = .ok plan) (ledger : Ledger α) :
    ∃ is final, l.Expansion call ledger is final ∧
      l.lowerInto call ledger = .ok (l.options.shown is, final) := by
  obtain ⟨first, hfirst⟩ := Lowerer.exists_lower_ok hplan ledger
  obtain ⟨is, hexp, -⟩ := hl.yields_expansion hfirst
  exact ⟨is, _, hexp, hl.lowerInto_of_expansion hplan hexp⟩

/-- **The echo is composed of plain gates.** In a registry of the library and any compound gates, with
any calibration, markers hidden, and on any ledger: where an echoed cross resonance is accepted and its
parameters have the values of those of the plain one, a plain cross resonance, a flip of the first qubit,
the plain cross resonance again and another flip are lowered one after the other, each on the ledger left
by the one before. Their instructions in a row are those of the echo, except that the pulses of the
second cross resonance have the opposite sign, and the last ledger is that of the echo. -/
theorem echo_is_composed [UnitScalar α] (hl : Extended l.registry)
    (hhidden : l.options.emitExpansions = false) (seed : Ledger α) {first : Lowering α}
    (haccepted : l.lower (echoCall a b) seed = .ok first) {params params' : Params α}
    (hecho : l.resolve (echoCall (α := α) a b).slot = .ok params)
    (hcross : l.resolve (crossCall (α := α) a b).slot = .ok params')
    (hvalues : params.values = params'.values) :
    ∃ is₁ ledger₁ is₂ ledger₂ is₃ ledger₃ is₄ ledger₄,
      l.lowerInto (crossCall a b) seed = .ok (is₁, ledger₁) ∧
      l.lowerInto (flipCall a) ledger₁ = .ok (is₂, ledger₂) ∧
      l.lowerInto (crossCall a b) ledger₂ = .ok (is₃, ledger₃) ∧
      l.lowerInto (flipCall a) ledger₃ = .ok (is₄, ledger₄) ∧
      l.lowerInto (echoCall a b) seed =
        .ok (is₁ ++ is₂ ++ is₃.map Instruction.negated ++ is₄, ledger₄) := by
  obtain ⟨plan, hplan, -⟩ := Lowerer.lower_eq_ok.mp haccepted
  obtain ⟨p, hs, hs', ⟨plan', hplan'⟩, plan'', hplan''⟩ := hl.echo_ready hplan hecho hcross hvalues
  have hplain (sign : α) (ledger : Ledger α) :
      Instruction.Plain (CrossResonance.pass p a b sign ledger) :=
    CrossResonance.pass_plain p a b sign ledger
  have hpass (ledger : Ledger α) : l.lowerInto (crossCall a b) ledger =
      .ok (CrossResonance.pass p a b 1 ledger,
        ledger.applyAll (CrossResonance.pass p a b 1 ledger)) := by
    have hinto := hl.lowerInto_of_expansion hplan'
      (Lowerer.expansion_of_defer hcross hs' (hplain 1 ledger))
    rwa [l.options.shown_of_plain (hplain 1 ledger)] at hinto
  obtain ⟨is₂, ledger₂, hflip, hinto⟩ :=
    hl.exists_expansion hplan'' (seed.applyAll (CrossResonance.pass p a b 1 seed))
  obtain ⟨is₄, ledger₄, hflip', hinto'⟩ :=
    hl.exists_expansion hplan'' (ledger₂.applyAll (CrossResonance.pass p a b 1 ledger₂))
  refine ⟨_, _, _, _, _, _, _, _, hpass seed, hinto, hpass ledger₂, hinto', ?_⟩
  -- the second pass leaves the ledger that the plain gate leaves
  rw [← Ledger.applyAll_negated, ← CrossResonance.pass_negated] at hflip'
  have hexp : l.Expansion (echoCall a b) seed _ ledger₄ :=
    ⟨params, _, hecho, hs, .behind_deferred (hflip.expands_marker (.behind_deferred
      (hflip'.expands_marker (.done ledger₄)) (hplain (-1) ledger₂))) (hplain 1 seed)⟩
  have hwhole := hl.lowerInto_of_expansion hplan hexp
  rw [← hexp.final_eq] at hwhole
  rw [hwhole, ← CrossResonance.pass_negated]
  simp only [LoweringOptions.shown_append, l.options.shown_marker hhidden, List.cons_append,
    l.options.shown_of_plain (hplain _ _), List.append_nil, List.append_assoc]

/-! ### Qubits whose cursors and phases differ -/

/-- A calibration of both variants in which both qubits are driven and both phases are corrected. -/
def drivenBoth : ParamValues Float :=
  (((∅ : ParamValues Float).insert "amp2" (.float 0.25)).insert "phi1" (.float 0.5)).insert "phi2"
    (.float (-0.75))

/-- The library over floats with a calibration of `Q0` and `Q1`, markers hidden. -/
def calibratedLowerer : Lowerer Float :=
  ⟨floatRegistry, fun slot => if slot.targets = ["Q0", "Q1"] then drivenBoth else ∅, ⟨32, false⟩⟩

/-- A ledger on which the two cursors and the two phases differ. -/
def staggered : Ledger Float := (Ledger.setTime ∅ "Q1" 1e-7).setPhase "Q0" 1

/-- Both variants resolve one calibration to the same values. -/
theorem calibrated_values : ∃ params params',
    calibratedLowerer.resolve (echoCall (α := Float) "Q0" "Q1").slot = .ok params ∧
      calibratedLowerer.resolve (crossCall (α := Float) "Q0" "Q1").slot = .ok params' ∧
      params.values = params'.values := by
  have hok : (calibratedLowerer.resolve (echoCall (α := Float) "Q0" "Q1").slot).isOk = true := by
    decide +kernel
  obtain ⟨params, hparams⟩ := Except.isOk_eq_true.mp hok
  have hget : floatRegistry.get? (echoCall (α := Float) "Q0" "Q1").key =
      some (.primitive CrossResonance.schema (CrossResonance.procedure .echoed)) :=
    extended_floatRegistry.get?_of_mem (by simp [definitions, primitives, echoCall])
  have hget' : floatRegistry.get? (crossCall (α := Float) "Q0" "Q1").key =
      some (.primitive CrossResonance.schema (CrossResonance.procedure .direct)) :=
    extended_floatRegistry.get?_of_mem (by simp [definitions, primitives, crossCall])
  have hschema := (Registry.resolve_primitive hget drivenBoth).symm.trans hparams
  exact ⟨params, _, hparams, (Registry.resolve_primitive hget' drivenBoth).trans
    (ParamSchema.resolve_under hschema _), rfl⟩

/-- An echo on qubits whose cursors and phases differ. -/
theorem calibrated_echo_is_composed : ∃ is₁ ledger₁ is₂ ledger₂ is₃ ledger₃ is₄ ledger₄,
    calibratedLowerer.lowerInto (crossCall "Q0" "Q1") staggered = .ok (is₁, ledger₁) ∧
      calibratedLowerer.lowerInto (flipCall "Q0") ledger₁ = .ok (is₂, ledger₂) ∧
      calibratedLowerer.lowerInto (crossCall "Q0" "Q1") ledger₂ = .ok (is₃, ledger₃) ∧
      calibratedLowerer.lowerInto (flipCall "Q0") ledger₃ = .ok (is₄, ledger₄) ∧
      calibratedLowerer.lowerInto (echoCall "Q0" "Q1") staggered =
        .ok (is₁ ++ is₂ ++ is₃.map Instruction.negated ++ is₄, ledger₄) := by
  obtain ⟨params, params', hecho, hcross, hvalues⟩ := calibrated_values
  have hok : (calibratedLowerer.plan (echoCall "Q0" "Q1")).isOk = true := by decide +kernel
  obtain ⟨plan, hplan⟩ := Except.isOk_eq_true.mp hok
  obtain ⟨first, hfirst⟩ := Lowerer.exists_lower_ok hplan staggered
  exact echo_is_composed (l := calibratedLowerer) extended_floatRegistry rfl staggered hfirst hecho
    hcross hvalues

end StandardGates

end PulseControl
