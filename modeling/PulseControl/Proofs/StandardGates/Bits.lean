import PulseControl.Proofs.Lowering.Succession
import PulseControl.Proofs.StandardGates.Independence

/-!
# The bits of measurements

A measurement that is given no bit takes the next one, which is above all bits recorded before it, so that
no result is lost. But bits have 32 bits themselves, and a call may give the last of them: from then on
the next bit is the last one again, and a measurement that is to find its bit replaces the result that is
recorded there. This is the only way in which it can happen.

* `PulseControl.StandardGates.Extended.measure_expansion` – what a measurement gives;
* `PulseControl.StandardGates.Automatic` – a measurement that finds its bit, in the record of some calls;
* `PulseControl.StandardGates.automatic_bits` – the bits that are found.
-/

namespace PulseControl

variable {α : Type} [Scalar α]

theorem Readout.BitChoice.ofCall_of_nil {call : GateCall α} (h : call.args = []) :
    ofCall call = .ok .next := by
  rw [ofCall, h]
  rfl

namespace StandardGates

open Instruction (bits)
open Ledger (lastBit)

variable {l : Lowerer α} {call : GateCall α} {is before before' : List (Instruction α)}
  {ledger final : Ledger α} {task task' : MeasurementTask α}

/-- **What a measurement gives** is what it plays, under the bit that its argument asks for. -/
theorem Extended.measure_expansion (h : Extended l.registry) (hkey : call.key = .plain "Measure")
    (hexp : l.Expansion call ledger is final) : ∃ q choice p, call.target 0 = .ok q ∧
      Readout.BitChoice.ofCall call = .ok choice ∧ is = Readout.play p choice q ledger := by
  obtain ⟨params, s, -, hs, hexpands⟩ := hexp
  rw [Registry.synthesize_primitive (hkey ▸ h.get?_measure)] at hs
  obtain ⟨q, choice, p, hq, hchoice, -, rfl⟩ := Readout.of_synthesize hs
  exact ⟨q, choice, p, hq, hchoice, hexpands.of_defer (Readout.play_plain p choice q ledger)⟩

/-- **The bits of every gate count upwards**, unless it is a measurement that is given one. -/
theorem Part.countsUp {params : Params α} {stage : Stage α} (h : Part call params stage)
    (hnone : call.key = .plain "Measure" → ∀ bit, Readout.BitChoice.ofCall call ≠ .ok (.given bit))
    (ledger : Ledger α) : ledger.CountsUp (stage.block ledger) := by
  rcases h.writes with hnil | ⟨q, choice, p, hkey, hchoice, rfl⟩
  · exact Ledger.countsUp_of_nil (hnil ledger) ledger
  · have hbits := Readout.bits_play p choice q ledger
    cases choice with
    | next => exact Ledger.countsUp_of_singleton hbits
    | given bit => exact absurd hchoice (hnone hkey bit)
    | unrecorded => exact Ledger.countsUp_of_nil hbits ledger

/-! ### The record of some calls -/

/-- **A measurement that finds its bit**: some instructions are followed by the marker of a measurement
that is given no bit, its pulse, its bias and then its slot. -/
def Automatic (is before : List (Instruction α)) (task : MeasurementTask α) : Prop :=
  ∃ x w value rest, x.key = .plain "Measure" ∧ x.args = [] ∧ x.targets[0]? = some task.qubit ∧
    is = before ++ .expand x :: .addWaveform (.readout task.qubit) w ::
      .setBias (.flux task.qubit) value :: .setCbit task :: rest

omit [Scalar α] in
/-- The slot of a measurement comes before the marker of any other one behind it. -/
theorem Automatic.bit_mem (h : Automatic is before task) (h' : Automatic is before' task')
    (hlt : before.length < before'.length) : task.cbit ∈ bits before' := by
  obtain ⟨x, w, value, rest, -, -, -, rfl⟩ := h
  obtain ⟨y, w', value', rest', -, -, -, hsplit⟩ := h'
  rcases List.append_eq_append_iff.mp hsplit with ⟨more, rfl, hmore⟩ | ⟨more, rfl, -⟩
  · -- the later marker is none of the four instructions of the first measurement
    match more, hmore with
    | [], _ => simp at hlt
    | _ :: _ :: _ :: _ :: more, hmore =>
      simp only [List.cons_append, List.cons.injEq] at hmore
      obtain ⟨-, -, -, rfl, -⟩ := hmore
      exact Instruction.mem_bits.mpr ⟨task, by simp, rfl⟩
  · rw [List.length_append] at hlt
    omega

/-- A marker of a measurement that is given no bit is followed by its pulse, its bias and its slot. -/
theorem exists_automatic {runs : List (Lowerer α × GateCall α)}
    (hext : ∀ run ∈ runs, Extended run.1.registry) (h : Lowerer.Succession runs ∅ is final)
    {x : GateCall α} {after : List (Instruction α)} (hsplit : is = before ++ .expand x :: after)
    (hkey : x.key = .plain "Measure") (hargs : x.args = []) :
    ∃ task, Automatic is before task ∧ task.cbit = (Ledger.applyAll ∅ before).nextCbit := by
  obtain ⟨inner, rest, rfl, hmarker⟩ := (hsplit ▸ h.unfolds).at_split
  obtain ⟨l, hl, middle, hexp⟩ := hmarker x rfl
  obtain ⟨run, hrun, rfl⟩ := List.mem_map.mp hl
  obtain ⟨q, choice, p, hq, hchoice, rfl⟩ := (hext run hrun).measure_expansion hkey hexp
  cases hchoice.symm.trans (Readout.BitChoice.ofCall_of_nil hargs)
  exact ⟨p.task q (Ledger.applyAll ∅ before).nextCbit ((Ledger.applyAll ∅ before).time q),
    ⟨x, _, _, _, hkey, hargs, GateCall.target_eq_ok.mp hq, hsplit⟩, rfl⟩

/-- The bit that a measurement finds is the next one. -/
theorem Automatic.cbit_eq {runs : List (Lowerer α × GateCall α)}
    (hext : ∀ run ∈ runs, Extended run.1.registry) (h : Lowerer.Succession runs ∅ is final)
    (hauto : Automatic is before task) : task.cbit = (Ledger.applyAll ∅ before).nextCbit := by
  obtain ⟨x, w, value, rest, hkey, hargs, -, hsplit⟩ := hauto
  obtain ⟨task', ⟨y, w', value', rest', -, -, -, hsplit'⟩, hbit⟩ :=
    exists_automatic hext h hsplit hkey hargs
  have hsame := List.append_cancel_left (hsplit.symm.trans hsplit')
  simp only [List.cons.injEq, Instruction.setCbit, Instruction.setState.injEq,
    StateUpdate.cbit.injEq] at hsame
  obtain ⟨-, -, -, rfl, -⟩ := hsame
  exact hbit

/-- **The bits that measurements find.** Calls of the library and any compound gates are lowered one after
the other from an empty ledger, and all succeed. In their record, with the markers of all calls, every
marker of a measurement that is given no bit has the slot of the measurement behind it. Its bit is above
all bits recorded before exactly if the last bit of all is not among these, and else it is that bit, whose
slot it replaces. So as long as the last bit is not recorded the bits that are found strictly increase,
and if no bit is given at all they are 0, 1, 2 and so on, up to the last. -/
theorem automatic_bits (runs : List (Lowerer α × GateCall α))
    (hext : ∀ run ∈ runs, Extended run.1.registry) (final : Ledger α)
    (h : Lowerer.lowerEach runs ∅ = .ok final) : ∃ is, Lowerer.Succession runs ∅ is final ∧
      (∀ before x after, is = before ++ .expand x :: after → x.key = .plain "Measure" → x.args = [] →
        ∃ task, Automatic is before task) ∧
      (∀ before task, Automatic is before task →
        ((∀ bit ∈ bits before, bit < task.cbit) ↔ lastBit ∉ bits before) ∧
        (lastBit ∈ bits before → task.cbit = lastBit)) ∧
      (∀ before task before' task', Automatic is before task → Automatic is before' task' →
        before.length < before'.length → lastBit ∉ bits before' → task.cbit < task'.cbit) ∧
      ((∀ x bit, .expand x ∈ is → x.key = .plain "Measure" →
          Readout.BitChoice.ofCall x ≠ .ok (.given bit)) →
        bits is = (List.range (bits is).length).map fun n => UInt32.ofNat (min n lastBit.toNat)) := by
  obtain ⟨is, hrecord⟩ := Lowerer.exists_succession h
  have hused : ∀ before bit, bit ∈ (Ledger.applyAll (∅ : Ledger α) before).measures ↔
      bit ∈ bits before := by
    intro before bit
    rw [Ledger.mem_measures_applyAll]
    exact or_iff_right Std.ExtTreeMap.not_mem_empty
  refine ⟨is, hrecord, fun before x after hsplit hkey hargs => ?_, fun before task hauto => ?_,
    fun before task before' task' hauto hauto' hlt hlast => ?_, fun hnone => ?_⟩
  · obtain ⟨task, hauto, -⟩ := exists_automatic hext hrecord hsplit hkey hargs
    exact ⟨task, hauto⟩
  · rw [hauto.cbit_eq hext hrecord]
    refine ⟨?_, fun hlast => Ledger.nextCbit_of_lastBit_mem ((hused before _).mpr hlast)⟩
    have hiff := (Ledger.applyAll ∅ before).lt_nextCbit_iff
    simpa only [hused before] using hiff
  · rw [hauto'.cbit_eq hext hrecord]
    refine Ledger.lt_nextCbit (fun hmem => hlast ((hused before' _).mp hmem)) ?_
    exact (hused before' _).mpr (hauto.bit_mem hauto' hlt)
  · have hblocks := hrecord.inBlocks (B := Ledger.CountsUp)
      (C := fun x => x.key = .plain "Measure" → ∀ bit, Readout.BitChoice.ofCall x ≠ .ok (.given bit))
      (fun run hrun => (hext run hrun).givesBlocks fun x _ _ hx hpart => hpart.countsUp hx)
      (fun x ledger => Ledger.countsUp_of_nil rfl ledger)
      (fun x hx hkey bit => hnone x bit hx hkey)
    have hcounts := hblocks.join (Ledger.countsUp_of_nil rfl) fun _ _ _ his hjs => his.append hjs
    have hbits := hcounts.bits_eq
    simpa only [Ledger.nextCbit_empty, UInt32.toNat_zero, Nat.zero_add] using hbits

/-! ### The last bit twice -/

/-- A measurement that is to find its bit. -/
def measureNext (q : Qubit) : GateCall ℚ := ⟨.plain "Measure", [q], []⟩

/-- A qubit is measured under the last bit, and then another one that is to find its bit: it finds the same
one. -/
theorem last_bit_found_again : ∃ is final before earlier task,
    Lowerer.lowerEach [(exactLowerer, measureInto "Q0" 4294967295), (exactLowerer, measureNext "Q1")]
        ∅ = .ok final ∧
      Lowerer.Succession [(exactLowerer, measureInto "Q0" 4294967295),
        (exactLowerer, measureNext "Q1")] ∅ is final ∧
      .setCbit earlier ∈ before ∧ earlier.qubit = "Q0" ∧ earlier.cbit = lastBit ∧
      Automatic is before task ∧ task.qubit = "Q1" ∧ task.cbit = lastBit := by
  have hdecl : exactLowerer.registry.WellDeclared := extended_exactLowerer.wellDeclared
  have hinto : ∀ call ledger, (exactLowerer.plan call).isOk = true →
      ∃ is final, exactLowerer.lowerInto call ledger = .ok (is, final) := by
    intro call ledger hok
    obtain ⟨plan, hplan⟩ := Except.isOk_eq_true.mp hok
    obtain ⟨is, final, hinto, -⟩ := Lowerer.lowerInto_of_plan rfl hdecl hplan ledger
    exact ⟨is, final, hinto⟩
  obtain ⟨_, middle, hfirst⟩ := hinto (measureInto "Q0" 4294967295) ∅ (by decide +kernel)
  obtain ⟨_, final, hsecond⟩ := hinto (measureNext "Q1") middle (by decide +kernel)
  have hruns : Lowerer.lowerEach [(exactLowerer, measureInto "Q0" 4294967295),
      (exactLowerer, measureNext "Q1")] ∅ = .ok final := by
    simp only [Lowerer.lowerEach, hfirst, hsecond, Except.bind_ok]
  obtain ⟨is, hrecord, hmarkers, hfinds, -⟩ := automatic_bits _ (fun run hrun => by
    rcases List.mem_pair.mp hrun with rfl | rfl <;> exact extended_exactLowerer) final hruns
  -- the record is a marker, what the first call gives, a marker and what the second gives
  obtain ⟨one, more, hexp, hsplit⟩ : ∃ one more,
      exactLowerer.Expansion (measureInto "Q0" 4294967295) ∅ one middle ∧
        is = (.expand (measureInto "Q0" 4294967295) :: one) ++ .expand (measureNext "Q1") :: more := by
    cases hrecord with
    | cons hinto hexp hrest =>
      cases hrest with
      | cons _ _ hnil =>
        obtain rfl := (Prod.mk.inj (Except.ok.inj (hinto.symm.trans hfirst))).2
        exact ⟨_, _, hexp, rfl⟩
  obtain ⟨q, choice, p, hq, hchoice, rfl⟩ := extended_exactLowerer.measure_expansion rfl hexp
  have hlast : (Readout.BitChoice.ofCall (measureInto "Q0" 4294967295)).toOption =
      some (.given lastBit) := by
    decide +kernel
  rw [hchoice] at hlast
  cases hlast
  cases hq
  obtain ⟨task, hauto⟩ := hmarkers _ _ _ hsplit rfl rfl
  have hslot : .setCbit (p.task "Q0" lastBit ((∅ : Ledger ℚ).time "Q0")) ∈
      .expand (measureInto "Q0" 4294967295) :: Readout.play p (.given lastBit) "Q0" ∅ := by
    simp [Readout.play, Readout.BitChoice.bit?]
  have hfound := (hfinds _ _ hauto).2 (Instruction.mem_bits.mpr ⟨_, hslot, rfl⟩)
  have hqubit : task.qubit = "Q1" := by
    obtain ⟨x, w, value, rest, -, -, htarget, hsplit'⟩ := hauto
    obtain ⟨hx, -⟩ := List.cons.inj (List.append_cancel_left (hsplit.symm.trans hsplit'))
    cases hx
    exact (Option.some.inj htarget).symm
  exact ⟨is, final, _, _, task, hruns, hrecord, hslot, rfl, rfl, hauto, hqubit, hfound⟩

end StandardGates

end PulseControl
