import PulseControl.Proofs.RealScalar
import PulseControl.Proofs.Schedule.Commit
import PulseControl.Proofs.StandardGates.Independence
import PulseControl.Proofs.StandardGates.Registered
import PulseControl.Proofs.Waveform.Modulation

/-!
# Rotations and phase shifts without overrides

A rotation in the plane is one pulse on the drive line. Its angle goes into the amplitude, by way of a
table that ends at 0 and at half a turn, and its axis into the phase of the carrier, to which the phase of
the frame is added. On the way to the carrier an axis is divided by `π`, looked up in a table and
multiplied by `π` again, and the table of the library ends at `-π` and `π`. So an axis in this range
arrives as it is, and one outside of it does not, unless it is an odd multiple of `π`. A phase shift plays
nothing and adds to the phase of the frame.

* `PulseControl.DriveRotation.Pulse.byDefault` – the pulse of a rotation without overrides;
* `PulseControl.DriveRotation.axis` – the axis that arrives, and
  `PulseControl.DriveRotation.axis_congruent_iff` – when it is the one that was asked for;
* `PulseControl.DriveRotation.turn` – the envelope of a rotation;
* `PulseControl.StandardGates.Extended.rotationCall_expansion`,
  `PulseControl.StandardGates.Extended.shiftCall_expansion` – the instructions of the two calls.
-/

namespace PulseControl

open Real

/-! ### A rotation without overrides -/

namespace DriveRotation

section Defaults

variable {α : Type} [Scalar α]

/-- **The pulse of a rotation without overrides.** -/
def Pulse.byDefault (theta phi : α) : Pulse α where
  shape := .cosPulse
  amp := Table.interp ⟨(0, 0), [(1, 0.653)]⟩ (theta / Scalar.pi)
  duration := Table.interp ⟨(0, 10e-9), [(1, 10e-9)]⟩ (theta / Scalar.pi)
  phase := Scalar.pi * Table.interp ⟨(-1, -1), [(1, 1)]⟩ (phi / Scalar.pi)
  frequency := 5e9
  alpha := 1
  beta := 0
  delta := 0
  buffer := 0

end Defaults

theorem ofParams_default {α : Type} [ExactScalar α] {params : Params α}
    (h : ∀ s ∈ schema, params.values[s.name]? = s.default?) (theta phi : α) :
    Pulse.ofParams params theta phi = .ok (.byDefault theta phi) := by
  simp only [schema, List.forall_mem_cons] at h
  obtain ⟨hshape, hamp, hduration, hphase, hfrequency, halpha, hbeta, hdelta, hbuffer, -⟩ := h
  have hascending : (-1 : α) ≤ 1 := by linarith [zero_lt_one (α := α)]
  have hshape := Params.pulseShape_of_value "shape" hshape rfl
  have hamp := Params.table_of_value "amp" hamp (Table.ofRows_pair zero_le_one _ _)
  have hduration := Params.table_of_value "duration" hduration (Table.ofRows_pair zero_le_one _ _)
  have hphase := Params.table_of_value "phase" hphase (Table.ofRows_pair hascending _ _)
  have hfrequency := Params.float_of_value "frequency" hfrequency
  have halpha := Params.float_of_value "alpha" halpha
  have hbeta := Params.float_of_value "beta" hbeta
  have hdelta := Params.float_of_value "delta" hdelta
  have hbuffer := Params.float_of_value "buffer" hbuffer
  rw [Pulse.ofParams, hshape, hamp, hduration, hphase, hfrequency, halpha, hbeta, hdelta, hbuffer]
  rfl

/-- **The axis that arrives at the carrier**: the one that is asked for, clamped to half a turn. -/
noncomputable def axis (phi : ℝ) : ℝ := max (-π) (min π phi)

theorem axis_of_le {phi : ℝ} (h : phi ≤ -π) : axis phi = -π := by
  rw [axis, min_eq_right (by linarith [Real.pi_pos]), max_eq_left h]

theorem axis_of_ge {phi : ℝ} (h : π ≤ phi) : axis phi = π := by
  rw [axis, min_eq_left h, max_eq_right (by linarith [Real.pi_pos])]

theorem axis_of_within {phi : ℝ} (hlow : -π ≤ phi) (hhigh : phi ≤ π) : axis phi = phi := by
  rw [axis, min_eq_right hhigh, max_eq_right hlow]

/-- **An axis arrives up to full turns** exactly if it lies within half a turn, or half a turn away from
none. -/
theorem axis_congruent_iff (phi : ℝ) :
    (∃ k : ℤ, axis phi = phi + 2 * π * k) ↔ |phi| ≤ π ∨ ∃ k : ℤ, phi = (2 * k + 1) * π := by
  have hpi := Real.pi_pos
  rw [abs_le]
  constructor
  · rintro ⟨k, hk⟩
    rw [or_iff_not_imp_left]
    intro hout
    rcases lt_or_ge phi (-π) with hlow | hlow
    · refine ⟨-k - 1, ?_⟩
      have hclamped := axis_of_le hlow.le
      push_cast
      linarith
    · have hhigh : π < phi := not_le.mp fun hle => hout ⟨hlow, hle⟩
      have hclamped := axis_of_ge hhigh.le
      refine ⟨-k, ?_⟩
      push_cast
      linarith
  · rintro (⟨hlow, hhigh⟩ | ⟨k, rfl⟩)
    · refine ⟨0, ?_⟩
      rw [axis_of_within hlow hhigh]
      simp
    · rcases le_or_gt 0 k with hk | hk
      · have hk' : (0 : ℝ) ≤ k := by exact_mod_cast hk
        refine ⟨-k, ?_⟩
        rw [axis_of_ge (by nlinarith)]
        push_cast
        ring
      · have hk' : (k : ℝ) ≤ -1 := by exact_mod_cast Int.le_sub_one_of_lt hk
        refine ⟨-k - 1, ?_⟩
        rw [axis_of_le (by nlinarith)]
        push_cast
        ring

/-- The amplitude of a rotation by an angle: none is left below 0, and no more than that of half a turn
is reached. -/
noncomputable def peak (theta : ℝ) : ℝ := 0.653 * max 0 (min 1 (theta / π))

theorem peak_pos {theta : ℝ} (h : 0 < theta) : 0 < peak theta := by
  have hratio : 0 < theta / π := div_pos h Real.pi_pos
  exact mul_pos (by norm_num) (lt_max_of_lt_right (lt_min zero_lt_one hratio))

theorem peak_of_nonpos {theta : ℝ} (h : theta ≤ 0) : peak theta = 0 := by
  have hratio : theta / π ≤ 0 := div_nonpos_of_nonpos_of_nonneg h Real.pi_pos.le
  rw [peak, max_eq_left (min_le_of_right_le hratio), mul_zero]

/-- The envelope of a rotation, which starts at 0. -/
noncomputable def turn (theta : ℝ) : Waveform ℝ :=
  (peak theta * Waveform.cosPulse (10e-9 : ℝ)) >>> (5e-9 : ℝ)

/-- **The pulse of a rotation without overrides**, with its tables looked up. -/
theorem byDefault_eq (theta phi : ℝ) :
    Pulse.byDefault theta phi = ⟨.cosPulse, peak theta, 10e-9, axis phi, 5e9, 1, 0, 0, 0⟩ := by
  have hpi := Real.pi_pos
  have hamp : Table.interp ⟨(0, 0), [(1, 0.653)]⟩ (theta / Scalar.pi) = peak theta := by
    rw [Table.interp_pair zero_lt_one, peak, scalar_pi_real]
    ring
  have hduration : Table.interp ⟨(0, 10e-9), [(1, 10e-9)]⟩ (theta / Scalar.pi) = (10e-9 : ℝ) := by
    rw [Table.interp_pair zero_lt_one]
    ring
  have hphase : Scalar.pi * Table.interp ⟨(-1, -1), [(1, 1)]⟩ (phi / Scalar.pi) = axis phi := by
    have hclamped : axis phi = π * max (-1) (min 1 (phi / π)) := by
      rw [axis, mul_max_of_nonneg _ _ hpi.le, mul_min_of_nonneg _ _ hpi.le, mul_neg_one, mul_one,
        mul_div_cancel₀ _ hpi.ne']
    rw [Table.interp_pair (by norm_num), hclamped, scalar_pi_real]
    ring
  rw [Pulse.byDefault, hphase]
  exact congrArg₂ (fun amp duration => Pulse.mk .cosPulse amp duration (axis phi) 5e9 1 0 0 0) hamp
    hduration

/-- There is nothing to play exactly if the angle is not positive. -/
theorem byDefault_isEmpty (theta phi : ℝ) :
    (Pulse.byDefault theta phi).isEmpty = decide (theta ≤ 0) := by
  have hduration : decide ((10e-9 : ℝ) ≤ 0) = false := decide_eq_false (by norm_num)
  rw [byDefault_eq, Pulse.isEmpty, hduration, Bool.or_false]
  rcases le_or_gt theta 0 with h | h
  · rw [peak_of_nonpos h, decide_eq_true h]
    exact decide_eq_true rfl
  · rw [decide_eq_false h.not_ge]
    exact decide_eq_false (peak_pos h).ne'

/-- **What a rotation without correction plays**: its envelope at the cursor, on a carrier whose phase is
that of the frame and its own. -/
theorem exists_play {p : Pulse ℝ} (hdrag : p.drag? = none) (q : Qubit) (l : Ledger ℝ) : ∃ w,
    p.play q l = [.addWaveform (.drive q) w, .setTime q (l.time q + p.duration + p.buffer)] ∧
      ∀ t, w.sample t =
        ((p.amp * Waveform.envelope p.shape p.duration) >>> (p.duration / 2)).sample
            (t - (l.time q + p.buffer / 2)) *
          cos (2 * π * p.frequency * t + l.phase q +
            (2 * π * p.delta * (t - (l.time q + p.buffer / 2)) + p.phase)) := by
  refine ⟨_, rfl, fun t => ?_⟩
  rw [Pulse.baseband, hdrag, Waveform.two_eq]
  exact IqPair.sample_modulate_mix _ _ _ _ _ _ t

/-- **A rotation plays one pulse**, at the cursor and on the axis that arrives. -/
theorem exists_play_turn (theta phi : ℝ) (q : Qubit) (l : Ledger ℝ) : ∃ w,
    (Pulse.byDefault theta phi).play q l =
        [.addWaveform (.drive q) w, .setTime q (l.time q + 10e-9)] ∧
      ∀ t, w.sample t = (turn theta >>> l.time q).sample t *
        cos (2 * π * 5e9 * t + (l.phase q + axis phi)) := by
  rw [byDefault_eq]
  obtain ⟨w, hplay, hw⟩ :=
    exists_play (p := ⟨.cosPulse, peak theta, 10e-9, axis phi, 5e9, 1, 0, 0, 0⟩)
      (by simp [Pulse.drag?]) q l
  refine ⟨w, ?_, fun t => ?_⟩
  · rw [hplay, add_zero]
  · have hangle : 2 * π * 5e9 * t + l.phase q + (2 * π * 0 * (t - (l.time q + 0 / 2)) + axis phi) =
        2 * π * 5e9 * t + (l.phase q + axis phi) := by ring
    have hcursor : t - (l.time q + 0 / 2) = t - l.time q := by ring
    have hmiddle : (10e-9 / 2 : ℝ) = 5e-9 := by norm_num
    rw [hw t, hangle, hcursor, hmiddle, Waveform.sample_delay (turn theta)]
    rfl

end DriveRotation

/-! ### The two calls -/

namespace Composites

variable {α : Type}

/-- A rotation of a qubit by an angle about an axis. -/
def rotationCall (q : Qubit) (theta phi : α) : GateCall α := ⟨.plain "rfUnitary", [q], [theta, phi]⟩

/-- A shift of the phase of a qubit. -/
def shiftCall (q : Qubit) (angle : α) : GateCall α := ⟨.plain "P", [q], [angle]⟩

end Composites

theorem Instruction.pulsesOn_shown {α : Type} (o : LoweringOptions) (c : Channel)
    (is : List (Instruction α)) : pulsesOn c (o.shown is) = pulsesOn c is := by
  rw [pulsesOn, LoweringOptions.shown, List.filterMap_filter, pulsesOn]
  congr 1
  funext i
  cases i <;> simp [isExpand]

namespace StandardGates

open Composites (rotationCall shiftCall)

/-- The gates behind a general rotation have no overrides on a qubit. -/
def Uncalibrated {α : Type} (l : Lowerer α) (q : Qubit) : Prop :=
  ∀ name ∈ ["U", "rfUnitary", "P"], l.calibration ⟨.plain name, [q]⟩ = ∅

variable {l : Lowerer ℝ} {q : Qubit}

/-- The checks of a rotation succeed, and its synthesis is the pulse without overrides, if it turns
anything. -/
theorem Extended.rotationCall_ready (hl : Extended l.registry) (hcal : Uncalibrated l q)
    (theta phi : ℝ) :
    ∃ params, l.registry.checkCall (rotationCall q theta phi) =
        .ok (.primitive DriveRotation.schema DriveRotation.procedure) ∧
      l.resolve (rotationCall q theta phi).slot = .ok params ∧
      l.registry.synthesize (rotationCall q theta phi) params =
        .ok (if theta ≤ 0 then ∅ else .defer ((DriveRotation.Pulse.byDefault theta phi).play q)) := by
  have hfits : (DriveRotation.procedure (α := ℝ)).signature.check (rotationCall q theta phi) =
      .ok () :=
    Signature.check_eq_ok.mpr ⟨rfl, List.nodup_singleton q, rfl, fun p _ => ExactScalar.isFinite_eq p.2⟩
  have hmem : ((rotationCall q theta phi).key,
      .primitive DriveRotation.schema DriveRotation.procedure) ∈ definitions (α := ℝ) := by
    simp [definitions, primitives, rotationCall]
  obtain ⟨params, hcheck, hres, -, hvalues, hs⟩ :=
    hl.primitive_ready hmem hfits (hcal "rfUnitary" (by simp))
  refine ⟨params, hcheck, hres, ?_⟩
  have hpulse := DriveRotation.ofParams_default hvalues theta phi
  have hsteps : DriveRotation.procedure.synthesize (rotationCall q theta phi) params =
      (DriveRotation.Pulse.ofParams params theta phi >>= fun pulse =>
        if pulse.isEmpty then .ok ∅ else .ok (.defer (pulse.play q))) := rfl
  rw [hs, hsteps, hpulse, Except.bind_ok, DriveRotation.byDefault_isEmpty]
  by_cases h : theta ≤ 0 <;> simp [h]

/-- The checks of a phase shift succeed. -/
theorem Extended.shiftCall_ready (hl : Extended l.registry) (hcal : Uncalibrated l q) (angle : ℝ) :
    ∃ params, l.registry.checkCall (shiftCall q angle) =
        .ok (.primitive [] PhaseShift.procedure) ∧
      l.resolve (shiftCall q angle).slot = .ok params ∧
      l.registry.synthesize (shiftCall q angle) params =
        .ok (.defer fun ledger => [.setPhase q (ledger.phase q + angle)]) := by
  have hfits : (PhaseShift.procedure (α := ℝ)).signature.check (shiftCall q angle) = .ok () :=
    Signature.check_eq_ok.mpr ⟨rfl, List.nodup_singleton q, rfl, fun p _ => ExactScalar.isFinite_eq p.2⟩
  have hmem : ((shiftCall q angle).key, .primitive [] PhaseShift.procedure) ∈
      definitions (α := ℝ) := by
    simp [definitions, primitives, shiftCall]
  obtain ⟨params, hcheck, hres, -, -, hs⟩ := hl.primitive_ready hmem hfits (hcal "P" (by simp))
  exact ⟨params, hcheck, hres, hs⟩

/-- The expansion of a rotation: a pulse, and the cursor behind it. -/
theorem Extended.rotationCall_expansion (hl : Extended l.registry) (hcal : Uncalibrated l q)
    {theta : ℝ} (h : 0 < theta) (phi : ℝ) (ledger : Ledger ℝ) : ∃ w,
    l.Expansion (rotationCall q theta phi) ledger
        [.addWaveform (.drive q) w, .setTime q (ledger.time q + 10e-9)]
        (ledger.setTime q (ledger.time q + 10e-9)) ∧
      ∀ t, w.sample t = (DriveRotation.turn theta >>> ledger.time q).sample t *
        cos (2 * π * 5e9 * t + (ledger.phase q + DriveRotation.axis phi)) := by
  obtain ⟨params, -, hres, hs⟩ := hl.rotationCall_ready hcal theta phi
  rw [if_neg h.not_ge] at hs
  obtain ⟨w, hplay, hw⟩ := DriveRotation.exists_play_turn theta phi q ledger
  have hexp := Lowerer.expansion_of_defer hres hs (DriveRotation.play_plain _ q ledger)
  rw [hplay] at hexp
  exact ⟨w, hexp, hw⟩

/-- A rotation by an angle that is not positive does nothing. -/
theorem Extended.rotationCall_nothing (hl : Extended l.registry) (hcal : Uncalibrated l q)
    {theta : ℝ} (h : theta ≤ 0) (phi : ℝ) (ledger : Ledger ℝ) :
    l.Expansion (rotationCall q theta phi) ledger [] ledger := by
  obtain ⟨params, -, hres, hs⟩ := hl.rotationCall_ready hcal theta phi
  rw [if_pos h] at hs
  exact ⟨params, _, hres, hs, .done ledger⟩

/-- The expansion of a phase shift. -/
theorem Extended.shiftCall_expansion (hl : Extended l.registry) (hcal : Uncalibrated l q) (angle : ℝ)
    (ledger : Ledger ℝ) :
    l.Expansion (shiftCall q angle) ledger [.setPhase q (ledger.phase q + angle)]
      (ledger.setPhase q (ledger.phase q + angle)) := by
  obtain ⟨params, -, hres, hs⟩ := hl.shiftCall_ready hcal angle
  refine Lowerer.expansion_of_defer hres hs fun i hi => ?_
  rw [List.mem_singleton.mp hi]
  rfl

theorem uncalibrated_realLowerer (q : Qubit) : Uncalibrated realLowerer q := fun _ _ => rfl

end StandardGates

end PulseControl
