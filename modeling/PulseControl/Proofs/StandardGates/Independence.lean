import PulseControl.Proofs.Lowering.Reads
import PulseControl.Proofs.Schedule.Commute
import PulseControl.Proofs.StandardGates.Cursors
import PulseControl.Proofs.StandardGates.Locality

/-!
# Calls on different qubits commute

A call writes the state of its targets only, and every stage that looks at the ledger looks at the cursors
and phases of its targets only, with one exception: a measurement that is given no bit takes the next free
one. So two calls on different qubits, neither of which reaches such a measurement and whose bits are
different, give the same instructions in either order, and these leave the same ledger and the same pulses.

* `PulseControl.StandardGates.Part.reads` – what the stages of every gate look at;
* `PulseControl.StandardGates.independent_calls_commute` – two calls run in either order.
-/

namespace PulseControl

variable {α : Type} [Scalar α]

/-! ### What the stages look at -/

section Stages

variable {qs : List Qubit} {a b : Qubit} {l l' : Ledger α}

theorem DriveRotation.play_congr (h : Ledger.AgreeOn qs l l') (ha : a ∈ qs) (p : Pulse α) :
    p.play a l' = p.play a l := by
  simp only [Pulse.play, h.time a ha, h.phase a ha]

/-- A measurement looks at the measurements before it only if it is to find a bit. -/
theorem Readout.play_congr (h : Ledger.AgreeOn qs l l') (ha : a ∈ qs) (p : Pulse α)
    {choice : BitChoice} (hchoice : choice ≠ .next) : play p choice a l' = play p choice a l := by
  have hbit : choice.bit? l' = choice.bit? l := by
    cases choice with
    | next => exact absurd rfl hchoice
    | given | unrecorded => rfl
  simp only [play, hbit, h.time a ha]

theorem CrossResonance.pass_congr (h : Ledger.AgreeOn qs l l') (ha : a ∈ qs) (hb : b ∈ qs)
    (p : Pulse α) (sign : α) : pass p a b sign l' = pass p a b sign l := by
  have hlatest : l'.maxTime [a, b] = l.maxTime [a, b] :=
    h.maxTime (List.cons_subset.mpr ⟨ha, List.cons_subset.mpr ⟨hb, List.nil_subset _⟩⟩)
  simp only [pass, Pulse.onControl, Pulse.onTarget, hlatest, h.phase a ha, h.phase b hb]

theorem FluxPulse.play_congr (h : Ledger.AgreeOn qs l l') (ha : a ∈ qs) (hb : b ∈ qs)
    (p : Pulse α) : play p a b l' = play p a b l := by
  have hlatest : l'.maxTime [a, b] = l.maxTime [a, b] :=
    h.maxTime (List.cons_subset.mpr ⟨ha, List.cons_subset.mpr ⟨hb, List.nil_subset _⟩⟩)
  simp only [play, hlatest, h.phase a ha, h.phase b hb]

theorem Barrier.align_congr {rs : List Qubit} (h : Ledger.AgreeOn qs l l') (hle : rs ⊆ qs) :
    align rs l' = align rs l := by
  have hlags : rs.filter (fun q => decide (l'.time q < l.maxTime rs)) =
      rs.filter fun q => decide (l.time q < l.maxTime rs) := by
    refine List.filter_congr fun q hq => ?_
    rw [h.time q (hle hq)]
  simp only [align, h.maxTime hle, hlags]

end Stages

/-- A measurement is to find a bit only if it is given none. -/
theorem Readout.args_of_next {call : GateCall α} (h : BitChoice.ofCall call = .ok .next) :
    call.args = [] := by
  rw [BitChoice.ofCall] at h
  split at h
  · next hnone => exact List.head?_eq_none_iff.mp hnone
  · split at h
    · cases h
    · split at h
      · cases h
      · split at h <;> cases h

namespace StandardGates

variable {l : Lowerer α} {call : GateCall α} {params : Params α}

/-- No measurement is to find its bit. -/
def Explicit (call : GateCall α) : Prop := call.key = .plain "Measure" → call.args ≠ []

/-- **The stages of every gate look at its targets only**, if it does not have to find a bit. -/
theorem Part.reads {stage : Stage α} (h : Part call params stage) (hexplicit : Explicit call) :
    stage.Reads call.targets := by
  intro ledger ledger' hagree
  cases h with
  | marker => rfl
  | rotation hq => exact DriveRotation.play_congr hagree (GateCall.target_mem hq) _
  | readout hkey hq hchoice =>
    refine Readout.play_congr hagree (GateCall.target_mem hq) _ fun hnext => ?_
    exact hexplicit hkey (Readout.args_of_next (hnext ▸ hchoice))
  | pass sign hcontrol htarget =>
    exact CrossResonance.pass_congr hagree (GateCall.target_mem hcontrol)
      (GateCall.target_mem htarget) _ sign
  | flux ha hb =>
    exact FluxPulse.play_congr hagree (GateCall.target_mem ha) (GateCall.target_mem hb) _
  | phase hq => simp only [Stage.block, hagree.phase _ (GateCall.target_mem hq)]
  | delay hq => simp only [Stage.block, hagree.time _ (GateCall.target_mem hq)]
  | barrier => exact Barrier.align_congr hagree (List.Subset.refl _)

/-- A slot of a measurement that need not find its bit is recorded under the bit that is given. -/
theorem Part.given_of_setCbit {stage : Stage α} (h : Part call params stage)
    (hexplicit : Explicit call) {ledger : Ledger α} {task : MeasurementTask α}
    (hmem : .setCbit task ∈ stage.block ledger) :
    call.key = .plain "Measure" ∧ Readout.BitChoice.ofCall call = .ok (.given task.cbit) := by
  have hwritten := Instruction.mem_bits.mpr ⟨task, hmem, rfl⟩
  rcases h.writes with hnone | ⟨q, choice, p, hkey, hchoice, rfl⟩
  · rw [hnone] at hwritten
    cases hwritten
  · rw [Stage.block, Readout.bits_play, Option.mem_toList] at hwritten
    cases choice with
    | next => exact absurd (Readout.args_of_next hchoice) (hexplicit hkey)
    | given bit =>
      cases hwritten
      exact ⟨hkey, hchoice⟩
    | unrecorded => cases hwritten

/-! ### Two calls -/

/-- The bits that are given to measurements which a call reaches. -/
def GivesBit (r : Registry α) (call : GateCall α) (bit : UInt32) : Prop :=
  ∃ x, r.Reaches call x ∧ x.key = .plain "Measure" ∧
    Readout.BitChoice.ofCall x = .ok (.given bit)

/-- The instructions of a call that has to find no bit stay within its targets, and write only the bits
that it gives. -/
theorem Extended.within_given (hl : Extended l.registry)
    (hexplicit : ∀ x, l.registry.Reaches call x → Explicit x) {is : List (Instruction α)}
    {ledger final : Ledger α} (hexp : l.Expansion call ledger is final) :
    ∀ i ∈ is, i.Within call.targets ∧
      ∀ task, i = .setCbit task → GivesBit l.registry call task.cbit := by
  have hbits := hl.forall_mem (Lowerer.reaches_inherited hl.wellDeclared call)
    (P := fun i => ∀ task, i = .setCbit task → GivesBit l.registry call task.cbit)
    (fun x _ _ hreach hpart ledger i hi task htask => by
      subst htask
      obtain ⟨hkey, hgiven⟩ := hpart.given_of_setCbit (hexplicit x hreach) hi
      exact ⟨x, hreach, hkey, hgiven⟩) .refl hexp
  exact fun i hi => ⟨hl.within hexp i hi, hbits i hi⟩

/-- A call that has to find no bit looks at its targets only, and so do the calls below it. -/
theorem Extended.reads (hl : Extended l.registry)
    (hexplicit : ∀ x, l.registry.Reaches call x → Explicit x) :
    l.Reads (fun x => l.registry.Reaches call x ∧ x.targets ⊆ call.targets) call.targets := by
  intro x params s hx hres hs stage hstage
  obtain ⟨hpending, hparts⟩ := hl.parts hres hs
  rw [Synthesis.allStages_of_pending hpending] at hstage
  intro ledger ledger' hagree
  exact (hparts stage hstage).reads (hexplicit x hx.1) ledger ledger'
    ⟨fun q hq => hagree.time q (hx.2 hq), fun q hq => hagree.phase q (hx.2 hq)⟩

/-- **A call on other qubits does not matter**: the expansion is the same behind its instructions. -/
theorem Extended.expansion_behind (hl : Extended l.registry) {a : GateCall α}
    (hexplicit : ∀ x, l.registry.Reaches a x → Explicit x) {qs : List Qubit}
    (hdisjoint : ∀ q ∈ a.targets, q ∉ qs) {is js : List (Instruction α)} {ledger final : Ledger α}
    (hexp : l.Expansion a ledger is final) (hjs : ∀ j ∈ js, j.Within qs) :
    ∃ final', l.Expansion a (ledger.applyAll js) is final' := by
  have hinherited : l.Inherited fun x => l.registry.Reaches a x ∧ x.targets ⊆ a.targets :=
    (Lowerer.reaches_inherited hl.wellDeclared a).and (hl.targets_inherited a.targets)
  have hself : l.registry.Reaches a a ∧ a.targets ⊆ a.targets := ⟨.refl, List.Subset.refl _⟩
  exact hexp.transfer (hl.reads hexplicit) hself (hexp.inherits hinherited hself)
    ((Ledger.sameOutside_applyAll hjs ledger).agreeOn hdisjoint)

/-- A call that is accepted runs to the end, and the schedule takes in what is shown of its expansion. -/
theorem Extended.run_of_expansion (hl : Extended l.registry) {s : Schedule α} {plan : Plan α}
    (hplan : l.plan call = .ok plan) {is : List (Instruction α)} {final : Ledger α}
    (hexp : l.Expansion call s.ledger is final) :
    s.run l call = (.ok (l.options.shown is).length, s.applyAll (l.options.shown is)) := by
  obtain ⟨first, hfirst⟩ := Lowerer.exists_lower_ok hplan s.ledger
  obtain ⟨js, hexp', -, hok, hshown⟩ := hl.yields_expansion hfirst
  obtain ⟨rfl, -⟩ := hexp.deterministic hexp'
  rw [Schedule.run_of_drain hfirst hok, hshown]

/-- **Independent calls commute.** In a registry of the library and any compound gates, with any
calibration and options and from any schedule: two calls that are accepted, have no target in common,
reach no measurement that is given no bit and give different bits to those that they reach. Run in either
order they succeed, each gives the same instructions in both orders, and the ledger and the pulses on
every channel are the same in the end. -/
theorem independent_calls_commute (hl : Extended l.registry) (s : Schedule α) (a b : GateCall α)
    (ha : ∃ first, l.lower a s.ledger = .ok first) (hb : ∃ first, l.lower b s.ledger = .ok first)
    (hdisjoint : ∀ q ∈ a.targets, q ∉ b.targets)
    (hexplicit : ∀ x, l.registry.Reaches a x ∨ l.registry.Reaches b x → Explicit x)
    (hbits : ∀ bit, GivesBit l.registry a bit → ¬GivesBit l.registry b bit) :
    ∃ is js sa sb sab sba, s.run l a = (.ok is.length, sa) ∧ sa.run l b = (.ok js.length, sab) ∧
      s.run l b = (.ok js.length, sb) ∧ sb.run l a = (.ok is.length, sba) ∧
      sa.log = s.log ++ is ∧ sab.log = sa.log ++ js ∧
      sb.log = s.log ++ js ∧ sba.log = sb.log ++ is ∧
      sab.ledger = sba.ledger ∧ sab.buffers = sba.buffers := by
  obtain ⟨first, hfirst⟩ := ha
  obtain ⟨other, hother⟩ := hb
  obtain ⟨planA, hplanA, -⟩ := Lowerer.lower_eq_ok.mp hfirst
  obtain ⟨planB, hplanB, -⟩ := Lowerer.lower_eq_ok.mp hother
  obtain ⟨is, hA, -⟩ := hl.yields_expansion hfirst
  obtain ⟨js, hB, -⟩ := hl.yields_expansion hother
  have hexplicitA : ∀ x, l.registry.Reaches a x → Explicit x := fun x hx => hexplicit x (Or.inl hx)
  have hexplicitB : ∀ x, l.registry.Reaches b x → Explicit x := fun x hx => hexplicit x (Or.inr hx)
  have hwithinA := hl.within_given hexplicitA hA
  have hwithinB := hl.within_given hexplicitB hB
  -- each call has the same expansion before and behind the other
  obtain ⟨_, hBA⟩ := hl.expansion_behind hexplicitB (fun q hqb hqa => hdisjoint q hqa hqb) hB
    fun i hi => (hwithinA i hi).1
  obtain ⟨_, hAB⟩ := hl.expansion_behind hexplicitA hdisjoint hA fun j hj => (hwithinB j hj).1
  have hledger : ∀ ks, (s.applyAll (l.options.shown ks)).ledger = s.ledger.applyAll ks := fun ks => by
    rw [Schedule.ledger_applyAll, Ledger.applyAll_shown]
  rw [← hledger is] at hBA
  rw [← hledger js] at hAB
  -- and no instruction of the one has anything in common with one of the other
  have hapart : ∀ i ∈ l.options.shown is, ∀ j ∈ l.options.shown js, i.Apart j := by
    intro i hi j hj
    obtain ⟨hi, hgivenA⟩ := hwithinA i (LoweringOptions.mem_shown.mp hi).1
    obtain ⟨hj, hgivenB⟩ := hwithinB j (LoweringOptions.mem_shown.mp hj).1
    refine .of_within hi hj hdisjoint fun t u ht hu heq => ?_
    exact hbits _ (hgivenA t ht) (heq ▸ hgivenB u hu)
  obtain ⟨hfinal, hbuffers⟩ := Schedule.applyAll_comm hapart s
  exact ⟨l.options.shown is, l.options.shown js, _, _, _, _, hl.run_of_expansion hplanA hA,
    hl.run_of_expansion hplanB hBA, hl.run_of_expansion hplanB hB, hl.run_of_expansion hplanA hAB,
    Schedule.log_applyAll _ _, Schedule.log_applyAll _ _, Schedule.log_applyAll _ _,
    Schedule.log_applyAll _ _, hfinal, hbuffers⟩

/-! ### Two measurements -/

/-- The measurement of the qubit `q` under the bit `x`. -/
def measureInto (q : Qubit) (x : ℚ) : GateCall ℚ := ⟨.plain "Measure", [q], [x]⟩

/-- A measurement reaches no other call. -/
theorem eq_of_reaches_measure {r : Registry α} (hr : Extended r) {x : GateCall α}
    (hkey : call.key = .plain "Measure") (h : r.Reaches call x) : x = call := by
  have hmeasure := hr.get?_measure
  rw [← hkey] at hmeasure
  rcases h.cases_head with heq | ⟨y, ⟨d, hd, step, hstep, -⟩, -⟩
  · exact heq.symm
  · cases hd.symm.trans hmeasure
    cases hstep

/-- Measurements of two qubits under two bits commute. -/
theorem measurements_commute : ∃ is js sa sb sab sba,
    (Schedule.ofLedger ∅).run exactLowerer (measureInto "Q0" 0) = (.ok is, sa) ∧
      sa.run exactLowerer (measureInto "Q1" 1) = (.ok js, sab) ∧
      (Schedule.ofLedger ∅).run exactLowerer (measureInto "Q1" 1) = (.ok js, sb) ∧
      sb.run exactLowerer (measureInto "Q0" 0) = (.ok is, sba) ∧
      sab.ledger = sba.ledger ∧ sab.buffers = sba.buffers := by
  have hplan : ∀ q x, (exactLowerer.plan (measureInto q x)).isOk = true →
      ∃ first, exactLowerer.lower (measureInto q x) (Schedule.ofLedger ∅).ledger = .ok first := by
    intro q x hok
    obtain ⟨plan, hplan⟩ := Except.isOk_eq_true.mp hok
    exact Lowerer.exists_lower_ok hplan _
  have hreached : ∀ x, exactLowerer.registry.Reaches (measureInto "Q0" 0) x ∨
      exactLowerer.registry.Reaches (measureInto "Q1" 1) x → Explicit x := by
    rintro x (hx | hx) -
    · rw [eq_of_reaches_measure extended_exactLowerer rfl hx]
      exact List.cons_ne_nil _ _
    · rw [eq_of_reaches_measure extended_exactLowerer rfl hx]
      exact List.cons_ne_nil _ _
  have hzero : (Readout.BitChoice.ofCall (measureInto "Q0" 0)).toOption = some (.given 0) := by
    decide +kernel
  have hone : (Readout.BitChoice.ofCall (measureInto "Q1" 1)).toOption = some (.given 1) := by
    decide +kernel
  have hbits : ∀ bit, GivesBit exactLowerer.registry (measureInto "Q0" 0) bit →
      ¬GivesBit exactLowerer.registry (measureInto "Q1" 1) bit := by
    rintro bit ⟨x, hx, -, hgivenx⟩ ⟨y, hy, -, hgiveny⟩
    rw [eq_of_reaches_measure extended_exactLowerer rfl hx] at hgivenx
    rw [eq_of_reaches_measure extended_exactLowerer rfl hy] at hgiveny
    rw [hgivenx] at hzero
    rw [hgiveny] at hone
    cases hzero
    cases hone
  obtain ⟨is, js, sa, sb, sab, sba, ha, hab, hb, hba, -, -, -, -, hledger, hbuffers⟩ :=
    independent_calls_commute extended_exactLowerer (Schedule.ofLedger ∅) (measureInto "Q0" 0) (measureInto "Q1" 1)
      (hplan _ _ (by decide +kernel)) (hplan _ _ (by decide +kernel)) (by decide) hreached hbits
  exact ⟨_, _, sa, sb, sab, sba, ha, hab, hb, hba, hledger, hbuffers⟩

end StandardGates

end PulseControl
