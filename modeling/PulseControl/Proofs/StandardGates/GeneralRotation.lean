import PulseControl.Proofs.StandardGates.DefaultRotation

/-!
# A general rotation on the drive line

A general rotation is two quarter turns between frame changes. Its three angles never reach the
amplitude of a pulse: they go into the axes of the quarter turns and into the phase of the frame at the
end. An axis arrives at the carrier clamped to half a turn.

* `PulseControl.StandardGates.general_rotation_pulses` – the pulses of a general rotation;
* `PulseControl.StandardGates.full_frame_turn_flips_pulse` – a rotation whose axis leaves the range.
-/

namespace PulseControl

open Real

namespace DriveRotation

/-- The envelope of a quarter turn, which starts at 0. -/
noncomputable def quarterTurn : Waveform ℝ :=
  ((0.3265 : ℝ) * Waveform.cosPulse (10e-9 : ℝ)) >>> (5e-9 : ℝ)

theorem turn_quarter : turn (Scalar.pi / 2.0) = quarterTurn := by
  have hhalf : (π / 2 / π : ℝ) = 1 / 2 := by field_simp
  have hpeak : peak (Scalar.pi / 2.0) = 0.3265 := by
    rw [peak, scalar_pi_real, Waveform.two_eq, hhalf]
    norm_num
  rw [turn, hpeak, quarterTurn]

end DriveRotation

/-! ### The calls of a general rotation -/

/-- Over exact scalars a step makes its call as soon as its arguments have values. -/
theorem Step.bind_of_eval {α : Type} [ExactScalar α] {step : Step α} {call : GateCall α}
    {signature : Signature} {targets : List Qubit} {args : List α}
    (htargets : step.targets.mapM call.target = (.ok targets : Except (GateError α) _))
    (hargs : List.Forall₂ (fun e v => e.evalPositional signature.argNames call.args = some v)
      step.args args) : step.bind call signature = .ok ⟨step.key, targets, args⟩ := by
  have hfinite : ∀ a : α, Scalar.isFinite a = true := ExactScalar.isFinite_eq
  have hbound : step.args.mapM (bindArg step.key signature.argNames call) = .ok args := by
    refine Except.mapM_eq_ok.mpr (hargs.imp fun e v h => ?_)
    rw [bindArg, h, Option.filter_some, hfinite, if_pos rfl]
  rw [bind, htargets, Except.bind_ok, hbound, Except.bind_ok]
  rfl

namespace Composites

variable {α : Type}

/-- A general rotation of a qubit. -/
def general (q : Qubit) (theta phi lambda : α) : GateCall α :=
  ⟨.plain "U", [q], [theta, phi, lambda]⟩

variable [Scalar α]

/-- A quarter turn of a qubit about an axis. -/
def quarterCall (q : Qubit) (phi : α) : GateCall α :=
  ⟨.plain "rfUnitary", [q], [Scalar.pi / 2.0, phi]⟩

/-- The calls that a general rotation expands to. -/
def generalCalls (q : Qubit) (theta phi lambda : α) : List (GateCall α) :=
  [quarterCall q (-lambda), quarterCall q (Scalar.pi - theta - lambda),
    shiftCall q (theta + phi + lambda)]

end Composites

theorem Composites.bind_generalSteps {α : Type} [ExactScalar α] (q : Qubit) (theta phi lambda : α) :
    (generalSteps.mapM fun step => step.bind (general q theta phi lambda) generalSignature) =
      .ok (generalCalls q theta phi lambda) := by
  refine Except.mapM_eq_ok.mpr (.cons ?_ (.cons ?_ (.cons ?_ .nil)))
  · exact Step.bind_of_eval rfl (.cons rfl (.cons rfl .nil))
  · exact Step.bind_of_eval rfl (.cons rfl (.cons rfl .nil))
  · exact Step.bind_of_eval rfl (.cons rfl .nil)

namespace StandardGates

open Composites (general quarterCall shiftCall generalCalls)
open Instruction (pulsesOn pulsesOn_shown)

variable {l : Lowerer ℝ} {q : Qubit}

/-- The checks of a general rotation succeed, and its synthesis is a marker for each of its calls. -/
theorem Extended.general_ready (hl : Extended l.registry) (hcal : Uncalibrated l q)
    (theta phi lambda : ℝ) : ∃ params, l.registry.checkCall (general q theta phi lambda) =
        .ok (.compound Composites.generalSignature Composites.generalSteps) ∧
      l.resolve (general q theta phi lambda).slot = .ok params ∧
      l.registry.synthesize (general q theta phi lambda) params =
        .ok ⟨(generalCalls q theta phi lambda).map fun c => .emit (.expand c), []⟩ := by
  have hget : l.registry.get? (.plain "U") =
      some (.compound Composites.generalSignature Composites.generalSteps) :=
    hl.get?_of_mem (by simp [definitions, Composites.all])
  have hcheck : Composites.generalSignature.check (general q theta phi lambda) = .ok () :=
    Signature.check_eq_ok.mpr ⟨rfl, List.nodup_singleton q, rfl, fun p _ => ExactScalar.isFinite_eq p.2⟩
  refine ⟨.empty (.plain "U"), Registry.checkCall_eq_ok.mpr ⟨hget, hcheck⟩, ?_, ?_⟩
  · have hslot : l.calibration (general q theta phi lambda).slot = ∅ := hcal "U" (by simp)
    have hget' : l.registry.get (general q theta phi lambda).slot.key =
        .ok (.compound Composites.generalSignature Composites.generalSteps) :=
      Registry.get_eq_ok.mpr hget
    rw [Lowerer.resolve, hslot, Registry.resolve, hget']
    rfl
  · rw [Registry.synthesize_compound hget, Registry.markers_eq_ok]
    exact ⟨_, Composites.bind_generalSteps q theta phi lambda, rfl⟩

/-- A general rotation has a plan where two gates may be nested. -/
theorem Extended.general_plan (hl : Extended l.registry) (hcal : Uncalibrated l q)
    (hdepth : 2 ≤ l.options.maxDepth) (theta phi lambda : ℝ) :
    ∃ plan, l.plan (general q theta phi lambda) = .ok plan := by
  have hquarter : ∀ axis, ∃ visits, l.treePlan 1 (quarterCall q axis) = .ok visits := fun axis => by
    obtain ⟨params, hcheck, hres, hs⟩ := hl.rotationCall_ready hcal (Scalar.pi / 2.0) axis
    exact ⟨_, Lowerer.treePlan_leaf hcheck rfl hres hs 0⟩
  have hshift : ∀ angle, ∃ visits, l.treePlan 1 (shiftCall q angle) = .ok visits := fun angle => by
    obtain ⟨params, hcheck, hres, hs⟩ := hl.shiftCall_ready hcal angle
    exact ⟨_, Lowerer.treePlan_leaf hcheck rfl hres hs 0⟩
  have hcalls : ∀ c ∈ generalCalls q theta phi lambda, ∃ visits, l.treePlan 1 c = .ok visits := by
    simp only [generalCalls, List.forall_mem_cons]
    exact ⟨hquarter _, hquarter _, hshift _, List.forall_mem_nil _⟩
  obtain ⟨params, hcheck, hres, hs⟩ := hl.general_ready hcal theta phi lambda
  obtain ⟨below, hbelow⟩ :=
    Lowerer.exists_treesBelow (Composites.bind_generalSteps q theta phi lambda) hcalls
  have htree := Lowerer.treePlan_succ_eq_ok.mpr ⟨_, params, below, hcheck, hres, ⟨_, hs⟩, hbelow, rfl⟩
  exact Lowerer.exists_plan_of_treePlan htree hdepth

/-- The expansion of a quarter turn: a pulse, and the cursor behind it. -/
theorem Extended.quarterCall_expansion (hl : Extended l.registry) (hcal : Uncalibrated l q) (phi : ℝ)
    (ledger : Ledger ℝ) : ∃ w,
    l.Expansion (quarterCall q phi) ledger
        [.addWaveform (.drive q) w, .setTime q (ledger.time q + 10e-9)]
        (ledger.setTime q (ledger.time q + 10e-9)) ∧
      ∀ t, w.sample t = (DriveRotation.quarterTurn >>> ledger.time q).sample t *
        cos (2 * π * 5e9 * t + (ledger.phase q + DriveRotation.axis phi)) := by
  have hpos : (0 : ℝ) < Scalar.pi / 2.0 := by
    rw [scalar_pi_real, Waveform.two_eq]
    exact half_pos Real.pi_pos
  rw [← DriveRotation.turn_quarter]
  exact hl.rotationCall_expansion hcal hpos phi ledger

/-- **The expansion of a general rotation**: two pulses, each with the cursor behind it, and the phase.
-/
theorem Extended.general_expansion (hl : Extended l.registry) (hcal : Uncalibrated l q)
    (theta phi lambda : ℝ) (seed : Ledger ℝ) : ∃ w w' is,
    l.Expansion (general q theta phi lambda) seed is (seed.applyAll is) ∧
      is = [.expand (quarterCall q (-lambda)), .addWaveform (.drive q) w,
        .setTime q (seed.time q + 10e-9), .expand (quarterCall q (π - theta - lambda)),
        .addWaveform (.drive q) w', .setTime q (seed.time q + 10e-9 + 10e-9),
        .expand (shiftCall q (theta + phi + lambda)),
        .setPhase q (seed.phase q + (theta + phi + lambda))] ∧
      (∀ t, w.sample t = (DriveRotation.quarterTurn >>> seed.time q).sample t *
        cos (2 * π * 5e9 * t + (seed.phase q + DriveRotation.axis (-lambda)))) ∧
      ∀ t, w'.sample t = (DriveRotation.quarterTurn >>> (seed.time q + 10e-9)).sample t *
        cos (2 * π * 5e9 * t + (seed.phase q + DriveRotation.axis (π - theta - lambda))) := by
  obtain ⟨w, hfirst, hw⟩ := hl.quarterCall_expansion hcal (-lambda) seed
  obtain ⟨w', hsecond, hw'⟩ :=
    hl.quarterCall_expansion hcal (π - theta - lambda) (seed.setTime q (seed.time q + 10e-9))
  -- the first pulse moves the cursor, and no pulse touches the phase
  have htime : (seed.setTime q (seed.time q + 10e-9)).time q = seed.time q + 10e-9 := by
    simp [Ledger.time, Ledger.setTime]
  rw [htime] at hsecond hw'
  obtain ⟨params, -, hres, hs⟩ := hl.general_ready hcal theta phi lambda
  have hmarkers := hfirst.expands_marker (hsecond.expands_marker
    ((hl.shiftCall_expansion hcal (theta + phi + lambda) _).expands_marker (.done _)))
  exact ⟨w, w', _, ⟨params, _, hres, hs, hmarkers⟩, rfl, hw, hw'⟩

/-- The pulses of a general rotation, as they are lowered. -/
theorem Extended.lowers_general (hl : Extended l.registry) (hcal : Uncalibrated l q)
    (hdepth : 2 ≤ l.options.maxDepth) (theta phi lambda : ℝ) (seed : Ledger ℝ) :
    ∃ is final w w', l.lowerInto (general q theta phi lambda) seed = .ok (is, final) ∧
      pulsesOn (.drive q) is = [w, w'] ∧ (∀ c v, .addWaveform c v ∈ is → c = .drive q) ∧
      final.time q = seed.time q + 10e-9 + 10e-9 ∧
      final.phase q = seed.phase q + (theta + phi + lambda) ∧
      (∀ t, w.sample t = (DriveRotation.quarterTurn >>> seed.time q).sample t *
        cos (2 * π * 5e9 * t + (seed.phase q + DriveRotation.axis (-lambda)))) ∧
      ∀ t, w'.sample t = (DriveRotation.quarterTurn >>> (seed.time q + 10e-9)).sample t *
        cos (2 * π * 5e9 * t + (seed.phase q + DriveRotation.axis (π - theta - lambda))) := by
  obtain ⟨plan, hplan⟩ := hl.general_plan hcal hdepth theta phi lambda
  obtain ⟨w, w', is, hexp, his, hw, hw'⟩ := hl.general_expansion hcal theta phi lambda seed
  refine ⟨_, _, w, w', hl.lowerInto_of_expansion hplan hexp, ?_, fun c v hv => ?_, ?_, ?_, hw, hw'⟩
  · rw [pulsesOn_shown, his]
    simp [pulsesOn, Instruction.setTime, Instruction.setPhase]
  · have hmem := (LoweringOptions.mem_shown.mp hv).1
    rw [his] at hmem
    simp only [List.mem_cons, List.not_mem_nil, or_false, Instruction.addWaveform.injEq, reduceCtorEq,
      Instruction.setTime, Instruction.setPhase, false_or] at hmem
    rcases hmem with ⟨rfl, -⟩ | ⟨rfl, -⟩ <;> rfl
  · rw [his]
    simp [Ledger.apply, Ledger.time, Instruction.setTime, Instruction.setPhase]
  · rw [his]
    simp [Ledger.apply, Ledger.phase, Instruction.setTime, Instruction.setPhase]

/-- **A general rotation plays two quarter turns**, and nothing else. In a registry of the library and
any compound gates, without overrides for the gates behind a general rotation: on any ledger and for any
angles the call is lowered. The first pulse is the envelope of a quarter turn at the cursor, on a
carrier whose phase is that of the frame and the axis `-lambda`; the second is the same at the advanced
cursor, with the axis `π - theta - lambda`; and the frame ends with all three angles added to its phase.
An axis arrives clamped to half a turn, so that it arrives up to full turns exactly if it lies within
half a turn or is an odd multiple of it. -/
theorem general_rotation_pulses (hl : Extended l.registry) (hcal : Uncalibrated l q)
    (hdepth : 2 ≤ l.options.maxDepth) (theta phi lambda : ℝ) (seed : Ledger ℝ) :
    ∃ is final w w', l.lowerInto (general q theta phi lambda) seed = .ok (is, final) ∧
      pulsesOn (.drive q) is = [w, w'] ∧ (∀ c v, .addWaveform c v ∈ is → c = .drive q) ∧
      (∀ t, w.sample t = (DriveRotation.quarterTurn >>> seed.time q).sample t *
        cos (2 * π * 5e9 * t + (seed.phase q + DriveRotation.axis (-lambda)))) ∧
      (∀ t, w'.sample t = (DriveRotation.quarterTurn >>> (seed.time q + 10e-9)).sample t *
        cos (2 * π * 5e9 * t + (seed.phase q + DriveRotation.axis (π - theta - lambda)))) ∧
      final.time q = seed.time q + 10e-9 + 10e-9 ∧
      final.phase q = seed.phase q + (theta + phi + lambda) ∧
      ((∃ k : ℤ, DriveRotation.axis (-lambda) = -lambda + 2 * π * k) ↔
        |lambda| ≤ π ∨ ∃ k : ℤ, lambda = (2 * k + 1) * π) ∧
      ((∃ k : ℤ, DriveRotation.axis (π - theta - lambda) = π - theta - lambda + 2 * π * k) ↔
        |π - theta - lambda| ≤ π ∨ ∃ k : ℤ, π - theta - lambda = (2 * k + 1) * π) := by
  obtain ⟨is, final, w, w', hinto, hpulses, hchannels, htime, hphase, hw, hw'⟩ :=
    hl.lowers_general hcal hdepth theta phi lambda seed
  refine ⟨is, final, w, w', hinto, hpulses, hchannels, hw, hw', htime, hphase, ?_,
    DriveRotation.axis_congruent_iff _⟩
  -- the odd multiples of half a turn are the same with either sign
  have hodd : (∃ k : ℤ, -lambda = (2 * k + 1) * π) ↔ ∃ k : ℤ, lambda = (2 * k + 1) * π := by
    constructor <;> rintro ⟨k, hk⟩ <;> refine ⟨-k - 1, ?_⟩ <;> push_cast <;> linarith
  rw [DriveRotation.axis_congruent_iff, abs_neg, hodd]

/-- A rotation that exchanges the axes x and z. -/
theorem hadamard_pulses : ∃ is final w w',
    realLowerer.lowerInto (general "Q0" (π / 2) 0 π) ∅ = .ok (is, final) ∧
      pulsesOn (.drive "Q0") is = [w, w'] ∧
      final.phase "Q0" = (∅ : Ledger ℝ).phase "Q0" + (π / 2 + 0 + π) := by
  have hdepth : 2 ≤ realLowerer.options.maxDepth := by decide
  obtain ⟨is, final, w, w', hinto, hpulses, -, -, -, -, hphase, -⟩ :=
    general_rotation_pulses extended_realLowerer (uncalibrated_realLowerer "Q0") hdepth (π / 2) 0 π ∅
  exact ⟨is, final, w, w', hinto, hpulses, hphase⟩

/-- **A full turn of the frame turns the pulse around.** With `lambda` a full turn the axis that is
asked for is as good as 0, but half a turn arrives. In the middle of the first pulse it has the value
opposite to that on any axis that is `-lambda` up to full turns. -/
theorem full_frame_turn_flips_pulse : ∃ is final w w',
    realLowerer.lowerInto (general "Q0" 0 0 (2 * π)) ∅ = .ok (is, final) ∧
      pulsesOn (.drive "Q0") is = [w, w'] ∧
      ∀ c, (∃ k : ℤ, c = (∅ : Ledger ℝ).phase "Q0" - 2 * π + 2 * π * k) →
        w.sample 5e-9 ≠ (DriveRotation.quarterTurn >>> (∅ : Ledger ℝ).time "Q0").sample 5e-9 *
          cos (2 * π * 5e9 * 5e-9 + c) := by
  have hdepth : 2 ≤ realLowerer.options.maxDepth := by decide
  obtain ⟨is, final, w, w', hinto, hpulses, -, -, -, hw, -⟩ :=
    extended_realLowerer.lowers_general (uncalibrated_realLowerer "Q0") hdepth 0 0 (2 * π) ∅
  refine ⟨is, final, w, w', hinto, hpulses, ?_⟩
  rintro c ⟨k, rfl⟩
  have hphase : (∅ : Ledger ℝ).phase "Q0" = 0 := rfl
  have htime : (∅ : Ledger ℝ).time "Q0" = 0 := rfl
  have haxis : DriveRotation.axis (-(2 * π)) = -π :=
    DriveRotation.axis_of_le (by linarith [Real.pi_pos])
  have hpeak : (DriveRotation.quarterTurn >>> (0 : ℝ)).sample 5e-9 = 0.3265 := by
    have hmiddle : (5e-9 - 0 - 5e-9 : ℝ) = 0 := by norm_num
    rw [DriveRotation.quarterTurn, Waveform.sample_delay, Waveform.sample_delay, hmiddle,
      Waveform.sample_factor, Waveform.sample_cosPulse_zero (by norm_num), mul_one]
  have hactual : cos (2 * π * 5e9 * 5e-9 + (0 + -π)) = -1 := by
    have hangle : 2 * π * 5e9 * 5e-9 + (0 + -π) = -π + (25 : ℤ) * (2 * π) := by norm_num; ring
    rw [hangle, Real.cos_add_int_mul_two_pi, Real.cos_neg, Real.cos_pi]
  have hclaimed : cos (2 * π * 5e9 * 5e-9 + (0 - 2 * π + 2 * π * k)) = 1 := by
    have hangle : 2 * π * 5e9 * 5e-9 + (0 - 2 * π + 2 * π * k) = ((24 + k : ℤ) : ℝ) * (2 * π) := by
      push_cast
      ring
    rw [hangle, Real.cos_int_mul_two_pi]
  rw [hw, hphase, htime, haxis, hpeak, hactual, hclaimed]
  norm_num

end StandardGates

end PulseControl
