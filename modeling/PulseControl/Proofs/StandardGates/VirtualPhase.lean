import PulseControl.Proofs.StandardGates.DefaultRotation
import PulseControl.Proofs.StandardGates.Matrices

/-!
# A phase shift before a rotation

As matrices, a phase moves past a rotation and turns its axis back by the phase. In the pulse program a
phase shift plays nothing: it adds to the phase of the frame, which is added to the axis of every
rotation that comes later. So a phase shift moves past a rotation as well, but the axis goes forward. The
two agree only where this makes no difference: if nothing is played, or if the phase is a multiple of half
a turn, so that the axes of both sides lie a full turn apart.

Whether two pulses are equal is seen at two times a quarter period of the carrier apart, both inside the
envelope: at one of them, if not at the other, the difference of the two carriers shows.

* `PulseControl.StandardGates.driven` – what some instructions play on the drive line of a qubit;
* `PulseControl.StandardGates.Extended.shift_then_rotation`,
  `PulseControl.StandardGates.Extended.rotation_then_shift` – the two orders;
* `PulseControl.StandardGates.shift_advances_axis` – which rotation a phase shift moves past.
-/

namespace PulseControl

open Real

/-! ### Carriers inside an envelope -/

/-- A raised cosine is positive inside its width. -/
theorem Waveform.sample_cosPulse_pos {width t : ℝ} (h : |t| < width / 2) :
    0 < (cosPulse width).sample t := by
  have hwidth : 0 < width := by linarith [abs_nonneg t]
  have hinside : ¬(width ≤ 0 ∨ width / 2 < Scalar.abs t) := by
    have habs : Scalar.abs t = |t| := rfl
    rw [habs]
    exact fun hor => hor.elim hwidth.not_ge h.not_gt
  have hangle : |2 * π / width * t| < π := by
    rw [abs_mul, abs_of_pos (by positivity)]
    calc 2 * π / width * |t| < 2 * π / width * (width / 2) := by gcongr
      _ = π := by field_simp
  have hcos : -1 < cos (2 * π / width * t) := by
    rw [← cos_abs, ← cos_pi]
    exact cos_lt_cos_of_nonneg_of_le_pi (abs_nonneg _) le_rfl hangle
  rw [cosPulse, sample, Primitive.value, two_eq, if_neg hinside, if_pos rfl, scalar_cos_real,
    scalar_pi_real]
  linarith

/-- Two carriers of the same frequency that agree at two times a quarter period apart have phases that
differ by full turns. -/
theorem multiple_of_pi_of_carriers {x a : ℝ} (h : cos (x + a) = cos (x - a))
    (h' : cos (x + π / 2 + a) = cos (x + π / 2 - a)) : ∃ k : ℤ, a = k * π := by
  have hsin : sin x * sin a = 0 := by
    rw [cos_add, cos_sub] at h
    linarith
  have hcos : cos x * sin a = 0 := by
    rw [cos_add, cos_sub, sin_add_pi_div_two] at h'
    linarith
  have hzero : sin a = 0 := by
    have hone := sin_sq_add_cos_sq x
    calc sin a = sin x * (sin x * sin a) + cos x * (cos x * sin a) := by
          linear_combination -sin a * hone
      _ = 0 := by rw [hsin, hcos, mul_zero, mul_zero, add_zero]
  obtain ⟨k, hk⟩ := sin_eq_zero_iff.mp hzero
  exact ⟨k, hk.symm⟩

namespace DriveRotation

theorem sample_turn (theta t : ℝ) :
    (turn theta).sample t = peak theta * (Waveform.cosPulse (10e-9 : ℝ)).sample (t - 5e-9) := by
  rw [turn, Waveform.sample_delay, Waveform.sample_factor]

/-- **An envelope shows the phase of its carrier**, up to multiples of half a turn where both signs of a
phase are compared. -/
theorem turn_carriers_eq_iff (theta start phase a : ℝ) :
    (∀ t, (turn theta >>> start).sample t * cos (2 * π * 5e9 * t + (phase + a)) =
        (turn theta >>> start).sample t * cos (2 * π * 5e9 * t + (phase - a))) ↔
      theta ≤ 0 ∨ ∃ k : ℤ, a = k * π := by
  constructor
  · intro h
    rw [or_iff_not_imp_left]
    intro htheta
    -- the middle of the envelope, and a quarter period of the carrier later
    have hshown (offset : ℝ) (hoffset : |offset| < 5e-9) :
        cos (2 * π * 5e9 * (start + 5e-9 + offset) + (phase + a)) =
          cos (2 * π * 5e9 * (start + 5e-9 + offset) + (phase - a)) := by
      refine mul_left_cancel₀ ?_ (h (start + 5e-9 + offset))
      have hlocal : start + 5e-9 + offset - start - 5e-9 = offset := by ring
      rw [Waveform.sample_delay, sample_turn, hlocal]
      have hinside : |offset| < 10e-9 / 2 := hoffset.trans_eq (by norm_num)
      exact (mul_pos (peak_pos (not_le.mp htheta)) (Waveform.sample_cosPulse_pos hinside)).ne'
    have hmiddle := hshown 0 (by norm_num)
    have hlater := hshown 5e-11 (by norm_num [abs_of_pos])
    have hangle (a : ℝ) : 2 * π * 5e9 * (start + 5e-9 + 0) + (phase + a) =
        2 * π * 5e9 * (start + 5e-9) + phase + a := by ring
    have hquarter (a : ℝ) : 2 * π * 5e9 * (start + 5e-9 + 5e-11) + (phase + a) =
        2 * π * 5e9 * (start + 5e-9) + phase + π / 2 + a := by ring
    simp only [sub_eq_add_neg phase, hangle, hquarter] at hmiddle hlater
    rw [← sub_eq_add_neg] at hmiddle hlater
    exact multiple_of_pi_of_carriers hmiddle hlater
  · rintro (h | ⟨k, rfl⟩) t
    · rw [Waveform.sample_delay, sample_turn, peak_of_nonpos h, zero_mul, zero_mul, zero_mul]
    · have hturns : 2 * π * 5e9 * t + (phase + k * π) =
          2 * π * 5e9 * t + (phase - k * π) + k * (2 * π) := by ring
      rw [hturns, cos_add_int_mul_two_pi]

end DriveRotation

namespace StandardGates

open Composites (rotationCall shiftCall)
open Instruction (pulsesOn pulsesOn_append pulsesOn_shown)

/-- **What some instructions play** on the drive line of a qubit. -/
noncomputable def driven (q : Qubit) (is : List (Instruction ℝ)) : ℝ → ℝ :=
  (Schedule.accumulated (pulsesOn (.drive q) is)).sample

theorem driven_eq_sum (q : Qubit) (is : List (Instruction ℝ)) (t : ℝ) :
    driven q is t = ((pulsesOn (.drive q) is).map fun w => w.sample t).sum := by
  have hsum := Waveform.sample_foldl_add id (pulsesOn (.drive q) is) .zero t
  rw [Waveform.sample_zero, zero_add] at hsum
  exact hsum

theorem driven_cons_marker (q : Qubit) (call : GateCall ℝ) (is : List (Instruction ℝ)) :
    driven q (.expand call :: is) = driven q is := rfl

theorem driven_append (q : Qubit) (is js : List (Instruction ℝ)) (t : ℝ) :
    driven q (is ++ js) t = driven q is t + driven q js t := by
  rw [driven_eq_sum, driven_eq_sum, driven_eq_sum, pulsesOn_append, List.map_append, List.sum_append]

/-- How long a rotation by an angle lasts. -/
noncomputable def lasting (theta : ℝ) : ℝ := if theta ≤ 0 then 0 else 10e-9

variable {l : Lowerer ℝ} {q : Qubit}

/-- **A rotation as it is lowered**, whatever its angle. -/
theorem Extended.lowers_rotation (hl : Extended l.registry) (hcal : Uncalibrated l q)
    (hdepth : 1 ≤ l.options.maxDepth) (theta phi : ℝ) (seed : Ledger ℝ) :
    ∃ is final, l.lowerInto (rotationCall q theta phi) seed = .ok (is, final) ∧
      final.time q = seed.time q + lasting theta ∧ final.phase q = seed.phase q ∧
      ∀ t, driven q is t = (DriveRotation.turn theta >>> seed.time q).sample t *
        cos (2 * π * 5e9 * t + (seed.phase q + DriveRotation.axis phi)) := by
  obtain ⟨params, hcheck, hres, hs⟩ := hl.rotationCall_ready hcal theta phi
  obtain ⟨plan, hplan⟩ :=
    Lowerer.exists_plan_of_treePlan (Lowerer.treePlan_leaf hcheck rfl hres hs 0) hdepth
  -- an angle that is not positive gives no instructions at all, and its envelope is zero
  rcases le_or_gt theta 0 with h | h
  · refine ⟨_, _, hl.lowerInto_of_expansion hplan (hl.rotationCall_nothing hcal h phi seed), ?_, rfl,
      fun t => ?_⟩
    · rw [lasting, if_pos h, add_zero]
      rfl
    · rw [Waveform.sample_delay, DriveRotation.sample_turn, DriveRotation.peak_of_nonpos h, zero_mul,
        zero_mul]
      exact driven_eq_sum q [] t
  · obtain ⟨w, hexp, hw⟩ := hl.rotationCall_expansion hcal h phi seed
    refine ⟨_, _, hl.lowerInto_of_expansion hplan hexp, ?_, ?_, fun t => ?_⟩
    · rw [lasting, if_neg h.not_ge]
      simp [Ledger.apply, Ledger.time, Instruction.setTime]
    · simp [Ledger.apply, Ledger.phase, Instruction.setTime]
    · rw [← hw, driven_eq_sum, pulsesOn_shown]
      simp [pulsesOn, Instruction.setTime]

/-- **A phase shift as it is lowered.** -/
theorem Extended.lowers_shift (hl : Extended l.registry) (hcal : Uncalibrated l q)
    (hdepth : 1 ≤ l.options.maxDepth) (angle : ℝ) (seed : Ledger ℝ) :
    ∃ is final, l.lowerInto (shiftCall q angle) seed = .ok (is, final) ∧
      final.time q = seed.time q ∧ final.phase q = seed.phase q + angle ∧ ∀ t, driven q is t = 0 := by
  obtain ⟨params, hcheck, hres, hs⟩ := hl.shiftCall_ready hcal angle
  obtain ⟨plan, hplan⟩ :=
    Lowerer.exists_plan_of_treePlan (Lowerer.treePlan_leaf hcheck rfl hres hs 0) hdepth
  refine ⟨_, _, hl.lowerInto_of_expansion hplan (hl.shiftCall_expansion hcal angle seed), ?_, ?_,
    fun t => ?_⟩
  · simp [Ledger.apply, Ledger.time, Instruction.setPhase]
  · simp [Ledger.apply, Ledger.phase, Instruction.setPhase]
  · rw [driven_eq_sum, pulsesOn_shown]
    simp [pulsesOn, Instruction.setPhase]

/-- **A phase shift and then a rotation**: the phase is in the frame when the pulse is played. -/
theorem Extended.shift_then_rotation (hl : Extended l.registry) (hcal : Uncalibrated l q)
    (hdepth : 1 ≤ l.options.maxDepth) (angle theta phi : ℝ) (seed : Ledger ℝ) :
    ∃ is final, l.inSequence [shiftCall q angle, rotationCall q theta phi] seed = .ok (is, final) ∧
      final.time q = seed.time q + lasting theta ∧ final.phase q = seed.phase q + angle ∧
      ∀ t, driven q is t = (DriveRotation.turn theta >>> seed.time q).sample t *
        cos (2 * π * 5e9 * t + (seed.phase q + angle + DriveRotation.axis phi)) := by
  obtain ⟨is, middle, hfirst, htime, hphase, hsilent⟩ := hl.lowers_shift hcal hdepth angle seed
  obtain ⟨js, final, hsecond, htime', hphase', hplayed⟩ :=
    hl.lowers_rotation hcal hdepth theta phi middle
  have hsequence : l.inSequence [shiftCall q angle, rotationCall q theta phi] seed =
      .ok (.expand (shiftCall q angle) :: is ++ (.expand (rotationCall q theta phi) :: js ++ []),
        final) := by
    simp only [Lowerer.inSequence, hfirst, hsecond, Except.bind_ok]
    rfl
  refine ⟨_, final, hsequence, ?_, ?_, fun t => ?_⟩
  · rw [htime', htime]
  · rw [hphase', hphase]
  · rw [List.append_nil, driven_append, driven_cons_marker, driven_cons_marker, hsilent, zero_add,
      hplayed, htime, hphase]

/-- **A rotation and then a phase shift**: the pulse is played on the frame as it was. -/
theorem Extended.rotation_then_shift (hl : Extended l.registry) (hcal : Uncalibrated l q)
    (hdepth : 1 ≤ l.options.maxDepth) (angle theta phi : ℝ) (seed : Ledger ℝ) :
    ∃ is final, l.inSequence [rotationCall q theta phi, shiftCall q angle] seed = .ok (is, final) ∧
      final.time q = seed.time q + lasting theta ∧ final.phase q = seed.phase q + angle ∧
      ∀ t, driven q is t = (DriveRotation.turn theta >>> seed.time q).sample t *
        cos (2 * π * 5e9 * t + (seed.phase q + DriveRotation.axis phi)) := by
  obtain ⟨is, middle, hfirst, htime, hphase, hplayed⟩ := hl.lowers_rotation hcal hdepth theta phi seed
  obtain ⟨js, final, hsecond, htime', hphase', hsilent⟩ := hl.lowers_shift hcal hdepth angle middle
  have hsequence : l.inSequence [rotationCall q theta phi, shiftCall q angle] seed =
      .ok (.expand (rotationCall q theta phi) :: is ++ (.expand (shiftCall q angle) :: js ++ []),
        final) := by
    simp only [Lowerer.inSequence, hfirst, hsecond, Except.bind_ok]
    rfl
  refine ⟨_, final, hsequence, ?_, ?_, fun t => ?_⟩
  · rw [htime', htime]
  · rw [hphase', hphase]
  · rw [List.append_nil, driven_append, driven_cons_marker, driven_cons_marker, hsilent, add_zero,
      hplayed]

/-- **A phase shift moves past a rotation and turns its axis forward**, where the matrices say back. In a
registry of the library and any compound gates, without overrides for the two gates and on any ledger,
for an axis within half a turn: a shift by `a` and then a rotation about `f` leave the cursor and the
phase of the frame that the rotation about `f - a` and then the shift leave, which as matrices is the same
gate; but, where `f - a` is within half a turn too, they play the same if and only if the angle of the
rotation is not positive or `a` is a multiple of half a turn. It is the rotation about `f + a` that plays
the same, where `f + a` is within half a turn. -/
theorem shift_advances_axis (hl : Extended l.registry) (hcal : Uncalibrated l q)
    (hdepth : 1 ≤ l.options.maxDepth) (seed : Ledger ℝ) (theta a : ℝ) {f : ℝ} (hf : |f| ≤ π) :
    Matrices.rotation theta f * Matrices.phase a =
        Matrices.phase a * Matrices.rotation theta (f - a) ∧
      ∃ is final is' final' is'' final'',
        l.inSequence [shiftCall q a, rotationCall q theta f] seed = .ok (is, final) ∧
        l.inSequence [rotationCall q theta (f - a), shiftCall q a] seed = .ok (is', final') ∧
        l.inSequence [rotationCall q theta (f + a), shiftCall q a] seed = .ok (is'', final'') ∧
        final.time q = final'.time q ∧ final.phase q = final'.phase q ∧
        final.time q = final''.time q ∧ final.phase q = final''.phase q ∧
        (|f - a| ≤ π → ((∀ t, driven q is t = driven q is' t) ↔ theta ≤ 0 ∨ ∃ k : ℤ, a = k * π)) ∧
        (|f + a| ≤ π → ∀ t, driven q is t = driven q is'' t) := by
  obtain ⟨is, final, hlower, htime, hphase, hplayed⟩ :=
    hl.shift_then_rotation hcal hdepth a theta f seed
  obtain ⟨is', final', hlower', htime', hphase', hplayed'⟩ :=
    hl.rotation_then_shift hcal hdepth a theta (f - a) seed
  obtain ⟨is'', final'', hlower'', htime'', hphase'', hplayed''⟩ :=
    hl.rotation_then_shift hcal hdepth a theta (f + a) seed
  have haxis {f : ℝ} (h : |f| ≤ π) : DriveRotation.axis f = f :=
    DriveRotation.axis_of_within (abs_le.mp h).1 (abs_le.mp h).2
  have hforward : seed.phase q + a + f = seed.phase q + f + a := by ring
  refine ⟨Matrices.rotation_mul_phase theta f a, is, final, is', final', is'', final'', hlower, hlower',
    hlower'', htime.trans htime'.symm, hphase.trans hphase'.symm, htime.trans htime''.symm,
    hphase.trans hphase''.symm, fun h => ?_, fun h t => ?_⟩
  · have hback : seed.phase q + (f - a) = seed.phase q + f - a := by ring
    simp only [hplayed, hplayed', haxis hf, haxis h, hforward, hback]
    exact DriveRotation.turn_carriers_eq_iff theta (seed.time q) (seed.phase q + f) a
  · rw [hplayed, hplayed'', haxis hf, haxis h, hforward, add_assoc]

/-- A quarter turn of the frame before a half turn about the y axis does not play the half turn about the
x axis, but one about the opposite axis. -/
theorem quarter_shift_before_flip : ∃ is final is' final',
    realLowerer.inSequence [shiftCall "Q0" (π / 2), rotationCall "Q0" π (π / 2)] ∅ =
        .ok (is, final) ∧
      realLowerer.inSequence [rotationCall "Q0" π (π / 2 - π / 2), shiftCall "Q0" (π / 2)] ∅ =
        .ok (is', final') ∧
      ¬∀ t, driven "Q0" is t = driven "Q0" is' t := by
  have hpi := Real.pi_pos
  have hdepth : 1 ≤ realLowerer.options.maxDepth := by decide
  have hf : |π / 2| ≤ π := by
    rw [abs_of_pos (by positivity)]
    linarith
  have hback : |π / 2 - π / 2| ≤ π := by
    rw [sub_self, abs_zero]
    exact hpi.le
  obtain ⟨-, is, final, is', final', -, -, hlower, hlower', -, -, -, -, -, hplayed, -⟩ :=
    shift_advances_axis extended_realLowerer (uncalibrated_realLowerer "Q0") hdepth ∅ π (π / 2) hf
  refine ⟨is, final, is', final', hlower, hlower', fun h => ?_⟩
  rcases (hplayed hback).mp h with hpos | ⟨k, hk⟩
  · exact hpos.not_gt hpi
  · have hhalf : (1 / 2 : ℝ) = k := mul_right_cancel₀ hpi.ne' (by linarith)
    have hodd : (1 : ℤ) = 2 * k := by
      have hreal : (1 : ℝ) = 2 * k := by linarith
      exact_mod_cast hreal
    omega

end StandardGates

end PulseControl
