import PulseControl.Proofs.Channel.Names
import PulseControl.Proofs.Schedule.Along
import PulseControl.Proofs.StandardGates.Locality
import PulseControl.Proofs.Waveform.Kept

/-!
# The pulses of the library

The procedures of the library play six kinds of pulses, each on a line of its own kind, and whatever gates
are put together from them, with whatever calibration, no other pulse is ever played. So a property of all
pulses of a schedule is one of these six.

* `PulseControl.StandardGates.Plays` – the kinds of pulses, with their lines;
* `PulseControl.StandardGates.Plays.kept` – what the operators keep holds of them;
* `PulseControl.StandardGates.Part.plays` – every stage plays such pulses only;
* `PulseControl.StandardGates.Extended.forall_mem_log` – from the stages to the log of a schedule;
* `PulseControl.StandardGates.plays_of_mem_log` – a schedule plays such pulses only.
-/

namespace PulseControl

variable {α : Type} [Scalar α] {c : Channel} {w : Waveform α}

/-! ### Kinds of pulses -/

/-- **The pulses of the library**, each on the line that it is played on. -/
inductive StandardGates.Plays : Channel → Waveform α → Prop where
  | rotation (p : DriveRotation.Pulse α) (q : Qubit) (start phase : α) :
    Plays (.drive q) ((p.baseband.delay start).modulate phase p.frequency).i
  | readout (p : Readout.Pulse α) (q : Qubit) (start : α) : Plays (.readout q) (p.waveform start)
  /-- The pulse of a pass on the line of its control. -/
  | control (p : CrossResonance.Pulse α) (q : Qubit) (start phase sign : α) :
    Plays (.drive q)
      (sign * (IqPair.mix ⟨p.amp1 * p.flatTop start, .zero⟩ ⟨phase, p.frequency, none⟩).i)
  /-- The pulse of a pass on the line of its target. -/
  | target (p : CrossResonance.Pulse α) (q : Qubit) (start phase sign : α) :
    Plays (.drive q)
      (sign * (IqPair.mix ⟨p.amp2 * p.flatTop start, p.corrections start⟩ ⟨phase, p.frequency, none⟩).i)
  | flux (p : FluxPulse.Pulse α) (q : Qubit) (start amp : α) :
    Plays (.flux q)
      (amp * ((Waveform.square p.duration p.edge .cos >>> (p.duration / 2.0)) >>> start))
  /-- The flux pulse on the line of the coupler. -/
  | coupler (p : FluxPulse.Pulse α) (a b : Qubit) (start amp : α) :
    Plays (.couplerFlux a b)
      (amp * ((Waveform.square p.duration p.edge .cos >>> (p.duration / 2.0)) >>> start))

open StandardGates (Plays)

/-- Their lines have as many qubits as their ports ask for. -/
theorem StandardGates.Plays.standard (h : Plays c w) : c.Standard := by
  cases h with
  | rotation _ q | control _ q | target _ q => exact .drive q
  | readout _ q => exact .readout q
  | flux _ q => exact .flux q
  | coupler _ a b => exact .couplerFlux a b

namespace Waveform.Kept

variable {P : Waveform α → Prop}

theorem baseband (h : Kept P) (p : DriveRotation.Pulse α) : P p.baseband.i ∧ P p.baseband.q :=
  h.mix (h.delay (h.factor (h.envelope p.shape p.duration) p.amp) _) h.zero _

theorem measurement (h : Kept P) (p : Readout.Pulse α) (start : α) : P (p.waveform start) := by
  have hstep : ∀ k dt : α, P (k * (Waveform.step p.edge .cos >>> dt)) := fun k dt =>
    h.factor (h.delay (h.step p.edge .cos) dt) k
  exact h.mul_carrier (h.sub (h.sub (hstep _ _) (hstep _ _)) (hstep _ _)) p.frequency 0

theorem flatTop (h : Kept P) (p : CrossResonance.Pulse α) (start : α) : P (p.flatTop start) :=
  h.delay (h.square _ _ _) _

theorem corrections (h : Kept P) (p : CrossResonance.Pulse α) (start : α) :
    P (p.corrections start) := by
  have hslope : ∀ dt : α, P ((Waveform.step p.edge p.edgeShape).derivative >>> dt) :=
    h.delay (h.derivative (h.step p.edge p.edgeShape))
  rw [CrossResonance.Pulse.corrections]
  refine h.add (h.add h.zero ?_) ?_
  · split
    · exact h.factor (h.sub (hslope _) (hslope _)) _
    · exact h.zero
  · split
    · exact h.factor (h.add (hslope _) (hslope _)) _
    · exact h.zero

end Waveform.Kept

/-- **What the operators keep holds of every pulse of the library**, whatever its parameters are. -/
theorem StandardGates.Plays.kept {P : Waveform α → Prop} (hP : Waveform.Kept P) (h : Plays c w) : P w := by
  cases h with
  | rotation p q start phase =>
    obtain ⟨hi, hq⟩ := hP.baseband p
    exact (hP.modulate (p := p.baseband.delay start) (hP.delay hi start) (hP.delay hq start) _ _).1
  | readout p q start => exact hP.measurement p start
  | control p q start phase sign =>
    exact hP.factor (hP.mix (hP.factor (hP.flatTop p start) p.amp1) hP.zero _).1 sign
  | target p q start phase sign =>
    exact hP.factor (hP.mix (hP.factor (hP.flatTop p start) p.amp2) (hP.corrections p start) _).1 sign
  | flux p q start amp | coupler p a b start amp =>
    exact hP.factor (hP.delay (hP.delay (hP.square _ _ _) _) start) amp

theorem DriveRotation.plays_of_mem_play {p : Pulse α} {q : Qubit} {l : Ledger α}
    (h : .addWaveform c w ∈ p.play q l) : Plays c w := by
  rcases List.mem_pair.mp h with h | h
  · cases h
    exact .rotation p q _ _
  · cases h

/-- A measurement plays one pulse. -/
theorem Readout.pulse_of_mem_play {p : Pulse α} {choice : BitChoice} {q : Qubit} {l : Ledger α}
    (h : .addWaveform c w ∈ play p choice q l) : c = .readout q ∧ w = p.waveform (l.time q) := by
  simp only [play, List.mem_append, List.mem_cons, List.not_mem_nil, or_false, Instruction.setBias,
    Instruction.setTime, Instruction.setPhase, reduceCtorEq] at h
  rcases h with h | h
  · cases h
    exact ⟨rfl, rfl⟩
  · cases hbit : choice.bit? l with
    | none =>
      rw [hbit] at h
      cases h
    | some bit =>
      rw [hbit] at h
      cases List.mem_singleton.mp h

theorem CrossResonance.plays_of_mem_pass {p : Pulse α} {control target : Qubit} {sign : α}
    {l : Ledger α} (h : .addWaveform c w ∈ pass p control target sign l) : Plays c w := by
  simp only [pass, List.mem_append, List.mem_cons, List.not_mem_nil, or_false, Instruction.setPhase,
    reduceCtorEq] at h
  rcases h with h | h
  · rw [Pulse.onControl] at h
    split at h
    · rcases List.mem_pair.mp h with h | h
      · cases h
        exact .control p control _ _ sign
      · cases h
    · cases h
  · rw [Pulse.onTarget] at h
    split at h
    · rcases List.mem_pair.mp h with h | h
      · cases h
        exact .target p target _ _ sign
      · cases h
    · cases h

theorem FluxPulse.plays_of_mem_play {p : Pulse α} {a b : Qubit} {l : Ledger α}
    (h : .addWaveform c w ∈ play p a b l) : Plays c w := by
  simp only [play, List.mem_cons, List.not_mem_nil, or_false, Instruction.setTime, Instruction.setPhase,
    reduceCtorEq] at h
  rcases h with h | h | h <;> cases h
  · exact .flux p a _ _
  · exact .flux p b _ _
  · exact .coupler p a b _ _

namespace StandardGates

/-! ### Stages and schedules -/

/-- **Every stage plays pulses of the library only.** -/
theorem Part.plays {call : GateCall α} {params : Params α} {stage : Stage α}
    (h : Part call params stage) (ledger : Ledger α) (hmem : .addWaveform c w ∈ stage.block ledger) :
    Plays c w := by
  cases h with
  | rotation => exact DriveRotation.plays_of_mem_play hmem
  | readout =>
    obtain ⟨rfl, rfl⟩ := Readout.pulse_of_mem_play hmem
    exact .readout _ _ _
  | pass => exact CrossResonance.plays_of_mem_pass hmem
  | flux => exact FluxPulse.plays_of_mem_play hmem
  | barrier =>
    obtain ⟨q, -, hq⟩ := Barrier.of_mem_align hmem
    cases hq
  | marker | phase | delay => cases List.mem_singleton.mp hmem

/-- **What holds of every instruction of every stage** holds of the log of a schedule, in which only calls
have been run. -/
theorem Extended.forall_mem_log {P : Instruction α → Prop}
    (hP : ∀ (call : GateCall α) params stage, Part call params stage →
      ∀ ledger, ∀ i ∈ stage.block ledger, P i)
    (seed : Ledger α) {runs : List (Lowerer α × GateCall α)}
    (hext : ∀ run ∈ runs, Extended run.1.registry) :
    ∀ i ∈ ((Schedule.ofLedger seed).runEach runs).log, P i := by
  have hcall : ∀ run ∈ runs, ∀ ledger first, run.1.lower run.2 ledger = .ok first →
      ∀ i ∈ first.drain.instructions, P i := by
    intro run hrun ledger first hfirst i hi
    obtain ⟨is, hexp, -, -, hshown⟩ := (hext run hrun).yields_expansion hfirst
    rw [hshown] at hi
    exact (hext run hrun).forall_mem (C := fun _ => True) (fun _ _ _ _ _ _ _ _ => trivial)
      (fun call params stage _ => hP call params stage) trivial hexp i (LoweringOptions.mem_shown.mp hi).1
  have hblocks := Schedule.inBlocks_runEach (B := fun _ block => ∀ i ∈ block, P i)
    (Schedule.recorded_ofLedger seed) (.nil seed) fun run hrun ledger first hfirst _ =>
      hcall run hrun ledger first hfirst
  exact hblocks.join (fun _ => List.forall_mem_nil _) fun _ _ _ his hjs =>
    List.forall_mem_append.mpr ⟨his, hjs⟩

/-- **A schedule plays pulses of the library only.** -/
theorem plays_of_mem_log {seed : Ledger α} {runs : List (Lowerer α × GateCall α)}
    (hext : ∀ run ∈ runs, Extended run.1.registry)
    (hmem : .addWaveform c w ∈ ((Schedule.ofLedger seed).runEach runs).log) : Plays c w :=
  Extended.forall_mem_log (P := fun i => ∀ c w, i = .addWaveform c w → Plays c w)
    (fun _ _ _ hpart ledger _ hi _ _ heq => hpart.plays ledger (heq ▸ hi)) seed hext _ hmem c w rfl

/-- So the channels of a schedule have as many qubits as their ports ask for. -/
theorem standard_of_mem_buffers {seed : Ledger α} {runs : List (Lowerer α × GateCall α)}
    (hext : ∀ run ∈ runs, Extended run.1.registry)
    (hmem : c ∈ ((Schedule.ofLedger seed).runEach runs).buffers) : c.Standard := by
  have hrecorded : Schedule.Recorded seed ((Schedule.ofLedger seed).runEach runs) :=
    (Schedule.recorded_ofLedger seed).performAll _
  obtain ⟨w, hw⟩ := (hrecorded.mem_buffers c).mp hmem
  exact (plays_of_mem_log hext hw).standard

end StandardGates

end PulseControl
