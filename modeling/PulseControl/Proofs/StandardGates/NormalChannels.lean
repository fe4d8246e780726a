import PulseControl.Proofs.StandardGates.DriveWindows
import PulseControl.Proofs.StandardGates.Pulses
import PulseControl.Proofs.Waveform.Normal

/-!
# The channels of the library are normal

A pulse of the library is put together by the operators on waveforms, and a channel adds up its pulses, so
that nothing trivial is left in what a channel plays. This does not depend on the parameters: an amplitude
of 0 makes a whole pulse zero, and one of 1 leaves no factor.

* `PulseControl.Buffers.Normal` – what a pulse does to the channels;
* `PulseControl.StandardGates.waveforms_stay_normal` – the operators, the pairs and the channels of every
  history of calls.
-/

namespace PulseControl

open Waveform

variable {α : Type} [ExactScalar α]

/-! ### Channels -/

/-- **Channels that play normal waveforms.** -/
def Buffers.Normal (b : Buffers α) : Prop := ∀ (c : Channel) (w : Waveform α), b[c]? = some w → w.Normal

/-- A normal pulse on top of what a channel plays. -/
theorem Buffers.Normal.add {b : Buffers α} (h : b.Normal) {w : Waveform α} (hw : w.Normal)
    (c : Channel) : (b.add c w).Normal := by
  intro c' w' hw'
  rw [Buffers.add, Std.ExtTreeMap.getElem?_insert] at hw'
  split at hw'
  · obtain rfl := Option.some.inj hw'
    refine Waveform.Normal.add ?_ hw
    cases hplayed : b[c]? with
    | none => exact normal_zero
    | some v => exact h c v hplayed
  · exact h c' w' hw'

/-- Channels that play the pulses of a record. -/
theorem Schedule.Recorded.normal {seed : Ledger α} {s : Schedule α} (h : Recorded seed s)
    (hlog : ∀ c w, .addWaveform c w ∈ s.log → w.Normal) : s.buffers.Normal := by
  intro c w hw
  have hplays := h.plays c
  rw [hw, Option.getD_some, accumulated] at hplays
  rw [hplays]
  exact kept_normal.foldl fun v hv => hlog c v (Instruction.mem_pulsesOn.mp hv)

namespace StandardGates

/-- **Nothing trivial is left in a waveform** that comes of the constructors and operators on waveforms, in
exact arithmetic. All constructors give normal waveforms. Sums, differences and products of normal waveforms
are normal, and so are the negative, multiples, delays and the derivative of one; pairs of normal waveforms
are delayed, scaled, modulated and mixed to such pairs; and a normal pulse on top of normal channels leaves
them normal. So if only calls are run, each by itself or many together, in registries of the library and
any compound gates, with any calibrations and options and from any ledger, all channels of the schedule
play normal waveforms. -/
theorem waveforms_stay_normal :
    ((zero : Waveform α).Normal ∧ (∀ c : α, (constant c).Normal) ∧
      (∀ (edge : α) shape, (step edge shape).Normal) ∧
      (∀ (width edge : α) shape, (square width edge shape).Normal) ∧
      (∀ width : α, (cosPulse width).Normal) ∧ (∀ width : α, (gaussian width).Normal) ∧
      (∀ frequency phase : α, (carrier frequency phase).Normal) ∧
      ∀ shape (width : α), (envelope shape width).Normal) ∧
    (∀ v w : Waveform α, v.Normal → w.Normal →
      (v + w).Normal ∧ (v - w).Normal ∧ (v * w).Normal) ∧
    (∀ w : Waveform α, w.Normal → (-w).Normal ∧ w.derivative.Normal ∧
      ∀ k : α, (w.scale k).Normal ∧ (k * w).Normal ∧ (w >>> k).Normal) ∧
    (∀ p : IqPair α, p.Normal → (∀ k, (p.delay k).Normal ∧ (p.scale k).Normal) ∧
      (∀ phase frequency, (p.modulate phase frequency).Normal) ∧ ∀ options, (p.mix options).Normal) ∧
    (∀ (b : Buffers α) c w, b.Normal → w.Normal → (b.add c w).Normal) ∧
    ∀ (seed : Ledger α) (ops : List (Schedule.Operation α)),
      (∀ op ∈ ops, op.Runs fun l => Extended l.registry) →
      ((Schedule.ofLedger seed).performAll ops).buffers.Normal := by
  refine ⟨⟨normal_zero, normal_constant, normal_step, normal_square, normal_cosPulse, normal_gaussian,
    normal_carrier, normal_envelope⟩, fun v w hv hw => ⟨hv.add hw, hv.sub hw, hv.mul hw⟩,
    fun w hw => ⟨hw.neg, hw.derivative, fun k => ⟨hw.scale k, hw.factor k, hw.delay k⟩⟩,
    fun p hp => ⟨fun k => ⟨hp.delay k, hp.scale k⟩, hp.modulate, hp.mix⟩,
    fun b c w hb hw => hb.add hw c, fun seed ops hops => ?_⟩
  obtain ⟨runs, hext, hruns⟩ := (Schedule.ofLedger seed).exists_runEach hops
  rw [hruns]
  have hrecorded : Schedule.Recorded seed ((Schedule.ofLedger seed).runEach runs) :=
    (Schedule.recorded_ofLedger seed).performAll _
  exact hrecorded.normal fun c w hmem => (plays_of_mem_log hext hmem).kept kept_normal

/-- What a rotation leaves on its drive line is normal, and so is what is made of it. -/
theorem turned_line_stays_normal : ∃ w : Waveform ℚ,
    ((Schedule.ofLedger ∅).performAll [.run exactLowerer turn]).buffers[Channel.drive "Q0"]? = some w ∧
      w.Normal ∧ (w * w.derivative - (2 : ℚ) * w).Normal ∧
      (IqPair.mix ⟨w, w >>> (1 : ℚ)⟩ ⟨0, 1, some 2⟩).Normal ∧
      Buffers.Normal (Buffers.add ∅ (.drive "Q0") w) := by
  obtain ⟨s, hs⟩ : ∃ s, s = (Schedule.ofLedger (∅ : Ledger ℚ)).performAll [.run exactLowerer turn] :=
    ⟨_, rfl⟩
  have hrecorded : Schedule.Recorded ∅ s := hs ▸ (Schedule.recorded_ofLedger ∅).performAll _
  obtain ⟨v, finish, hlog⟩ := log_run_turn (Schedule.ofLedger ∅)
  have hplayed : Channel.drive "Q0" ∈ s.buffers :=
    (hrecorded.mem_buffers _).mpr ⟨v, by rw [hs]; exact hlog ▸ List.mem_cons_self⟩
  obtain ⟨w, hw⟩ : ∃ w, s.buffers[Channel.drive "Q0"]? = some w :=
    ⟨_, Std.ExtTreeMap.getElem?_eq_some_getElem hplayed⟩
  obtain ⟨-, hpair, hone, hiq, hadd, hchannels⟩ := waveforms_stay_normal (α := ℚ)
  have hcalls : ∀ op ∈ [Schedule.Operation.run exactLowerer turn],
      op.Runs fun l => Extended l.registry := by
    intro op hop
    obtain rfl := List.mem_singleton.mp hop
    exact extended_exactLowerer
  have hnormal : w.Normal := hchannels ∅ _ hcalls _ w (hs ▸ hw)
  obtain ⟨-, hderived, htwice⟩ := hone w hnormal
  have hdelayed := (htwice 1).2.2
  refine ⟨w, hs ▸ hw, hnormal, (hpair _ _ (hpair _ _ hnormal hderived).2.2 (htwice 2).2.1).2.1,
    (hiq _ ⟨hnormal, hdelayed⟩).2.2 _, hadd ∅ _ w (fun c w hw => ?_) hnormal⟩
  simp at hw

end StandardGates

end PulseControl
