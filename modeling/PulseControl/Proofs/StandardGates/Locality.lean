import PulseControl.Proofs.Ledger.Frame
import PulseControl.Proofs.Schedule.Commit
import PulseControl.Proofs.StandardGates.Stages

/-!
# A call concerns its targets only

The targets of a step are positions among the targets of the gate, so that however deep a gate is nested,
its targets are among those of the call at the top. Each procedure of the library picks the channels of
its own targets. What an instruction concerns bounds what it does to the ledger, and so nothing outside
of the targets of a call is touched by it.

* `PulseControl.StandardGates.Part.within` – the instructions of every gate stay within its targets;
* `PulseControl.StandardGates.Extended.within` – so do all instructions of an expansion;
* `PulseControl.StandardGates.calls_are_local` – what a call gives and what it changes.
-/

namespace PulseControl

variable {α : Type} [Scalar α]

/-! ### The stages of the library -/

namespace Instruction

variable {qs : List Qubit} {a b : Qubit} {w : Waveform α}

omit [Scalar α]

theorem within_drive (h : a ∈ qs) : (addWaveform (.drive a) w).Within qs :=
  within_addWaveform (List.cons_subset.mpr ⟨h, List.nil_subset _⟩) (List.cons_ne_nil _ _)

theorem within_flux (h : a ∈ qs) : (addWaveform (.flux a) w).Within qs :=
  within_addWaveform (List.cons_subset.mpr ⟨h, List.nil_subset _⟩) (List.cons_ne_nil _ _)

theorem within_readout (h : a ∈ qs) : (addWaveform (.readout a) w).Within qs :=
  within_addWaveform (List.cons_subset.mpr ⟨h, List.nil_subset _⟩) (List.cons_ne_nil _ _)

theorem within_coupler (ha : a ∈ qs) (hb : b ∈ qs) :
    (addWaveform (.couplerFlux a b) w).Within qs :=
  within_addWaveform (List.cons_subset.mpr ⟨ha, List.cons_subset.mpr ⟨hb, List.nil_subset _⟩⟩)
    (List.cons_ne_nil _ _)

end Instruction

open Instruction

variable {qs : List Qubit} {a b : Qubit} {i : Instruction α} {l : Ledger α}

theorem DriveRotation.play_within (p : Pulse α) (ha : a ∈ qs) (hi : i ∈ p.play a l) :
    i.Within qs := by
  simp only [Pulse.play, List.mem_cons, List.not_mem_nil, or_false] at hi
  rcases hi with rfl | rfl
  · exact within_drive ha
  · exact within_setTime ha

theorem Readout.play_within (p : Pulse α) (choice : BitChoice) (ha : a ∈ qs)
    (hi : i ∈ play p choice a l) : i.Within qs := by
  rcases of_mem_play hi with ⟨w, rfl⟩ | rfl | ⟨bit, -, rfl⟩ | rfl | rfl
  · exact within_readout ha
  · exact within_setBias (List.cons_subset.mpr ⟨ha, List.nil_subset _⟩) (List.cons_ne_nil _ _)
  · exact within_setCbit ha
  · exact within_setTime ha
  · exact within_setPhase ha

theorem CrossResonance.pass_within (p : Pulse α) (sign : α) (ha : a ∈ qs) (hb : b ∈ qs)
    (hi : i ∈ pass p a b sign l) : i.Within qs := by
  obtain ⟨q, hq, hi⟩ := of_mem_pass hi
  have hmem : q ∈ qs := by
    rcases List.mem_pair.mp hq with rfl | rfl
    · exact ha
    · exact hb
  rcases hi with ⟨w, rfl⟩ | rfl | ⟨value, rfl⟩
  · exact within_drive hmem
  · exact within_setTime hmem
  · exact within_setPhase hmem

theorem FluxPulse.play_within (p : Pulse α) (ha : a ∈ qs) (hb : b ∈ qs) (hi : i ∈ play p a b l) :
    i.Within qs := by
  simp only [play, List.mem_cons, List.not_mem_nil, or_false] at hi
  rcases hi with rfl | rfl | rfl | rfl | rfl | rfl | rfl
  · exact within_flux ha
  · exact within_flux hb
  · exact within_coupler ha hb
  · exact within_setTime ha
  · exact within_setTime hb
  · exact within_setPhase ha
  · exact within_setPhase hb

theorem Barrier.align_within (hi : i ∈ align qs l) : i.Within qs := by
  obtain ⟨q, hq, rfl⟩ := of_mem_align hi
  exact within_setTime hq

/-! ### Calls -/

omit [Scalar α] in
/-- Nothing but markers is hidden. -/
theorem LoweringOptions.shown_of_plain (o : LoweringOptions) {is : List (Instruction α)}
    (h : Instruction.Plain is) : o.shown is = is :=
  List.filter_eq_self.mpr fun i hi => by simp [h i hi]

namespace StandardGates

variable {call : GateCall α} {params : Params α}

/-- **The instructions of every gate stay within its targets.** -/
theorem Part.within {stage : Stage α} (h : Part call params stage) (ledger : Ledger α)
    (hi : i ∈ stage.block ledger) : i.Within call.targets := by
  cases h with
  | marker hsubset =>
    rw [List.mem_singleton.mp hi]
    exact within_expand hsubset
  | rotation hq => exact DriveRotation.play_within _ (GateCall.target_mem hq) hi
  | readout _ hq => exact Readout.play_within _ _ (GateCall.target_mem hq) hi
  | pass sign hcontrol htarget =>
    exact CrossResonance.pass_within _ sign (GateCall.target_mem hcontrol)
      (GateCall.target_mem htarget) hi
  | flux ha hb =>
    exact FluxPulse.play_within _ (GateCall.target_mem ha) (GateCall.target_mem hb) hi
  | phase hq =>
    rw [List.mem_singleton.mp hi]
    exact within_setPhase (GateCall.target_mem hq)
  | delay hq =>
    rw [List.mem_singleton.mp hi]
    exact within_setTime (GateCall.target_mem hq)
  | barrier => exact Barrier.align_within hi

variable {l : Lowerer α}

/-- **To have targets among some qubits** is inherited by the calls below a call. -/
theorem Extended.targets_inherited (h : Extended l.registry) (qs : List Qubit) :
    l.Inherited fun x => x.targets ⊆ qs := by
  intro call params s x hcall hres hs hx
  obtain ⟨hpending, hparts⟩ := h.parts hres hs
  obtain ⟨stage, hstage, hemits⟩ := hx.mem
  rw [Synthesis.allStages_of_pending hpending] at hstage
  -- a marker of the synthesis stands in a block of one of its stages
  obtain ⟨ledger, hblock⟩ : ∃ ledger, .expand x ∈ stage.block ledger := by
    cases stage with
    | emit i => exact ⟨∅, List.mem_singleton.mpr hemits⟩
    | deferred f => exact hemits
  exact List.Subset.trans ((hparts stage hstage).within ledger hblock).subset hcall

/-- **All instructions of an expansion stay within the targets of its call**, markers included. -/
theorem Extended.within (h : Extended l.registry) {is : List (Instruction α)}
    {ledger final : Ledger α} (hexp : l.Expansion call ledger is final) :
    ∀ i ∈ is, i.Within call.targets :=
  h.forall_mem (h.targets_inherited call.targets)
    (fun _ _ _ hcall hpart ledger _ hi => (hpart.within ledger hi).mono hcall)
    (List.Subset.refl _) hexp

/-- A call that is accepted gives its expansion, shown as the options say, and ends. -/
theorem Extended.yields_expansion (h : Extended l.registry) {seed : Ledger α} {first : Lowering α}
    (hfirst : l.lower call seed = .ok first) : ∃ is, l.Expansion call seed is (seed.applyAll is) ∧
      first.Yields (l.options.shown is) (seed.applyAll is) ∧ first.drain.error? = none ∧
      first.drain.instructions = l.options.shown is := by
  have hok := ((Lowerer.lower_safe h.wellDeclared hfirst).drain h.wellDeclared).1
  obtain ⟨is, hexp, hshown⟩ := Lowerer.shown_expansion_of_lower hfirst hok
  have hfinal : first.drain.state.context = seed.applyAll is := hexp.final_eq
  rw [hfinal] at hexp
  refine ⟨is, hexp, ?_, hok, hshown⟩
  rw [← hshown, ← hfinal]
  exact Lowering.yields_drain hok

/-- A call that is planned and has an expansion is lowered to what is shown of it. -/
theorem Extended.lowerInto_of_expansion (h : Extended l.registry) {plan : Plan α}
    (hplan : l.plan call = .ok plan) {seed final : Ledger α} {is : List (Instruction α)}
    (hexp : l.Expansion call seed is final) :
    l.lowerInto call seed = .ok (l.options.shown is, seed.applyAll is) := by
  obtain ⟨first, hfirst⟩ := Lowerer.exists_lower_ok hplan seed
  obtain ⟨js, hexp', -, hok, hshown⟩ := h.yields_expansion hfirst
  obtain ⟨rfl, -⟩ := hexp.deterministic hexp'
  rw [Lowerer.lowerInto_of_drain hfirst hok, hshown, Ledger.applyAll_shown]

/-- **A call concerns its targets only.** In a registry of the library and any compound gates, with any
calibration, options and first ledger: a call that is accepted gives its expansion, with the markers where
the options say so. All instructions of the expansion, at any depth and markers included, concern only
targets of the call; the targets of every marker are among these; and the last ledger has for all other
qubits the cursor and phase that the first one has, for all channels that involve none of the targets
the same bias, and every measurement whose bit is not written. -/
theorem calls_are_local (hl : Extended l.registry) (seed : Ledger α) (first : Lowering α)
    (hfirst : l.lower call seed = .ok first) : ∃ is final, l.Expansion call seed is final ∧
      first.Yields (l.options.shown is) final ∧
      (∀ i ∈ is, ∀ q, i.touches q = true → q ∈ call.targets) ∧
      (∀ x, .expand x ∈ is → x.targets ⊆ call.targets) ∧
      (∀ q ∉ call.targets, final.time q = seed.time q ∧ final.phase q = seed.phase q) ∧
      (∀ c, (∀ q ∈ call.targets, c.involves q = false) → final.bias? c = seed.bias? c) ∧
      ∀ bit task, seed.measures[bit]? = some task →
        (∀ written, .setCbit written ∈ is → written.cbit ≠ bit) →
        final.measures[bit]? = some task := by
  obtain ⟨is, hexp, hyields, -⟩ := hl.yields_expansion hfirst
  have hwithin := hl.within hexp
  have hsame := Ledger.sameOutside_applyAll hwithin seed
  refine ⟨is, _, hexp, hyields, fun i hi q hq => ?_, fun x hx => (hwithin _ hx).subset,
    fun q hq => ?_, hsame.biases, fun bit task htask hnot => ?_⟩
  · exact (hwithin i hi).subset (touches_iff.mp hq)
  · rw [Ledger.time, Ledger.phase, hsame.times q hq, hsame.phases q hq]
    exact ⟨rfl, rfl⟩
  · rw [Ledger.measures_applyAll hnot, htask]

/-- The controlled flip of two qubits leaves the cursor of a third where it is. -/
theorem controlledFlip_is_local : ∃ first is final,
    floatLowerer.lower controlledFlip (Ledger.setTime ∅ "Q2" 5) = .ok first ∧
      first.Yields (floatLowerer.options.shown is) final ∧ "Q2" ∉ controlledFlip.targets ∧
      final.time "Q2" = (Ledger.setTime ∅ "Q2" 5).time "Q2" := by
  obtain ⟨plan, hplan⟩ := exists_plan_controlledFlip
  obtain ⟨first, hfirst⟩ := Lowerer.exists_lower_ok hplan (Ledger.setTime ∅ "Q2" 5)
  obtain ⟨is, final, -, hyields, -, -, hsame, -⟩ :=
    calls_are_local (l := floatLowerer) extended_floatRegistry _ first hfirst
  have hnot : "Q2" ∉ controlledFlip.targets := by decide
  exact ⟨first, is, final, hfirst, hyields, hnot, (hsame "Q2" hnot).1⟩

end StandardGates

end PulseControl
