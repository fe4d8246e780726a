import PulseControl.Proofs.Lowering.Safety

/-!
# The expansion of a call

What a call stands for can be said without a stack: its synthesis is gone through stage by stage, and
where a marker comes, the call that it names is expanded in place, on the ledger as it is then, before
the next stage is looked at. The machine does the same. Its stack holds what is left of the syntheses
under way, so a run from any state is the expansion of what is left at the top, then that of what is left
below it, and so on to the bottom.

* `PulseControl.Lowerer.Expansion` – the expansion of a call;
* `PulseControl.Lowerer.Expands.deterministic` – there is at most one;
* `PulseControl.Lowerer.unwinds_drain` – a run of the machine unwinds its stack;
* `PulseControl.Lowerer.lowering_is_expansion` – the instructions of a call and its last ledger are those
  of the expansion, and those of a compound gate come step by step.
-/

namespace PulseControl

namespace Lowerer

variable {α : Type} [Scalar α]

/-! ### Expansion in place -/

/-- **What some stages stand for** from a ledger on: the instructions, and the ledger after them. -/
inductive Expands (l : Lowerer α) :
    List (Stage α) → Ledger α → List (Instruction α) → Ledger α → Prop where
  | done (ledger : Ledger α) : Expands l [] ledger [] ledger
  /-- An ordinary instruction takes effect. -/
  | plain {i : Instruction α} {stages : List (Stage α)} {is : List (Instruction α)}
    {ledger final : Ledger α} : i.isExpand = false → Expands l stages (ledger.apply i) is final →
    Expands l (.emit i :: stages) ledger (i :: is) final
  /-- A stage that looks at the ledger is computed when it is reached. -/
  | deferred {f : Ledger α → List (Instruction α)} {stages : List (Stage α)}
    {is : List (Instruction α)} {ledger final : Ledger α} :
    Expands l ((f ledger).map .emit ++ stages) ledger is final →
    Expands l (.deferred f :: stages) ledger is final
  /-- A marker is followed by the expansion of the call that it names. -/
  | marker {call : GateCall α} {params : Params α} {s : Synthesis α} {stages : List (Stage α)}
    {inner is : List (Instruction α)} {ledger middle final : Ledger α} :
    l.resolve call.slot = .ok params → l.registry.synthesize call params = .ok s →
    Expands l s.allStages ledger inner middle → Expands l stages middle is final →
    Expands l (.emit (.expand call) :: stages) ledger (.expand call :: inner ++ is) final

/-- **The expansion of a call** from a ledger on. -/
def Expansion (l : Lowerer α) (call : GateCall α) (ledger : Ledger α) (is : List (Instruction α))
    (final : Ledger α) : Prop :=
  ∃ params s, l.resolve call.slot = .ok params ∧ l.registry.synthesize call params = .ok s ∧
    l.Expands s.allStages ledger is final

variable {l : Lowerer α} {stages : List (Stage α)} {is is' : List (Instruction α)}
  {ledger final final' : Ledger α} {call : GateCall α} {s t : Lowering α}

/-- Stages have at most one expansion. -/
theorem Expands.deterministic (h : l.Expands stages ledger is final)
    (h' : l.Expands stages ledger is' final') : is = is' ∧ final = final' := by
  induction h generalizing is' final' with
  | done ledger =>
    cases h'
    exact ⟨rfl, rfl⟩
  | plain hi _ ih =>
    -- no instruction is both ordinary and a marker, so both derivations end in the same rule
    cases h' with
    | plain _ h' =>
      obtain ⟨rfl, rfl⟩ := ih h'
      exact ⟨rfl, rfl⟩
    | marker => cases hi
  | deferred _ ih =>
    cases h' with
    | deferred h' => exact ih h'
  | marker hres hs _ _ ihinner ih =>
    cases h' with
    | plain hi => cases hi
    | marker hres' hs' hinner' h' =>
      cases hres.symm.trans hres'
      cases hs.symm.trans hs'
      obtain ⟨rfl, rfl⟩ := ihinner hinner'
      obtain ⟨rfl, rfl⟩ := ih h'
      exact ⟨rfl, rfl⟩

/-- **A call has at most one expansion.** -/
theorem Expansion.deterministic (h : l.Expansion call ledger is final)
    (h' : l.Expansion call ledger is' final') : is = is' ∧ final = final' := by
  obtain ⟨params, s, hres, hs, h⟩ := h
  obtain ⟨params', s', hres', hs', h'⟩ := h'
  cases hres.symm.trans hres'
  cases hs.symm.trans hs'
  exact h.deterministic h'

/-- A marker stands for the expansion of its call. -/
theorem Expansion.expands_marker {middle : Ledger α} (h : l.Expansion call ledger is middle)
    (hrest : l.Expands stages middle is' final) :
    l.Expands (.emit (.expand call) :: stages) ledger (.expand call :: is ++ is') final := by
  obtain ⟨params, s, hres, hs, h⟩ := h
  exact .marker hres hs h hrest

/-- Instructions without a marker stand for themselves. -/
theorem expands_of_plain (h : Instruction.Plain is) (ledger : Ledger α) :
    l.Expands (is.map .emit) ledger is (ledger.applyAll is) := by
  induction is generalizing ledger with
  | nil => exact .done ledger
  | cons i is ih =>
    have hrest : Instruction.Plain is := fun j hj => h j (List.mem_cons_of_mem _ hj)
    exact .plain (h i List.mem_cons_self) (ih hrest _)

theorem expands_of_nextOf_eq_none (h : Synthesis.nextOf ledger stages = none) :
    l.Expands stages ledger [] ledger := by
  induction stages with
  | nil => exact .done ledger
  | cons stage stages ih =>
    cases stage with
    | emit i => cases h
    | deferred f =>
      rw [Synthesis.nextOf] at h
      split at h
      · next hf =>
        refine .deferred ?_
        rw [hf]
        exact ih h
      · cases h

/-- A synthesis that has nothing more to give stands for nothing. -/
theorem expands_of_next_eq_none {synthesis : Synthesis α} (h : synthesis.next ledger = none) :
    l.Expands synthesis.allStages ledger [] ledger := by
  obtain ⟨stages, pending⟩ := synthesis
  cases pending with
  | nil => exact expands_of_nextOf_eq_none h
  | cons i is => cases h

theorem Expands.of_nextOf {rest : Synthesis α} {i : Instruction α}
    (h : l.Expands (.emit i :: rest.allStages) ledger is final)
    (hnext : Synthesis.nextOf ledger stages = some (i, rest)) :
    l.Expands stages ledger is final := by
  induction stages with
  | nil => cases hnext
  | cons stage stages ih =>
    cases stage with
    | emit j =>
      cases hnext
      exact h
    | deferred f =>
      rw [Synthesis.nextOf] at hnext
      refine .deferred ?_
      split at hnext
      · next hf =>
        rw [hf]
        exact ih hnext
      · next j js hf =>
        cases hnext
        rw [hf]
        exact h

/-- A synthesis stands for what its next instruction and the rest stand for. -/
theorem Expands.of_next {synthesis rest : Synthesis α} {i : Instruction α}
    (h : l.Expands (.emit i :: rest.allStages) ledger is final)
    (hnext : synthesis.next ledger = some (i, rest)) :
    l.Expands synthesis.allStages ledger is final := by
  obtain ⟨stages, pending⟩ := synthesis
  cases pending with
  | nil => exact h.of_nextOf hnext
  | cons j js =>
    cases hnext
    exact h

/-! ### The machine -/

/-- **What a stack stands for**: what is left of the topmost gate, then of those below it. -/
inductive Unwinds (l : Lowerer α) :
    List (Frame α) → Ledger α → List (Instruction α) → Ledger α → Prop where
  | nil (ledger : Ledger α) : Unwinds l [] ledger [] ledger
  | cons {frame : Frame α} {outer : List (Frame α)} {is is' : List (Instruction α)}
    {ledger middle final : Ledger α} : l.Expands frame.synthesis.allStages ledger is middle →
    Unwinds l outer middle is' final → Unwinds l (frame :: outer) ledger (is ++ is') final

/-- A machine with the registry and options of the lowerer, and a plan that holds the parameters that it
resolves. -/
structure Faithful (l : Lowerer α) (s : Lowering α) : Prop where
  registry : s.registry = l.registry
  options : s.options = l.options
  plan : ∀ (slot : Slot) (params : Params α), s.plan[slot]? = some params →
    l.resolve slot = .ok params
  running : s.failed = false

theorem Faithful.follows (h : l.Faithful s) (hf : Lowering.Follows t s) : l.Faithful t := by
  obtain ⟨hregistry, hoptions, hplan, hfailed⟩ := hf.same
  exact ⟨hregistry.trans h.registry, hoptions.trans h.options, hplan ▸ h.plan,
    hfailed.trans h.running⟩

theorem Faithful.enter (h : l.Faithful s) {parent : GateKey} (ht : s.enter call parent = .ok t) :
    l.Faithful t := by
  obtain ⟨hregistry, hoptions, hplan, -, hfailed⟩ := Lowering.enter_frame ht
  exact ⟨hregistry.trans h.registry, hoptions.trans h.options, hplan ▸ h.plan,
    hfailed.trans h.running⟩

/-- A gate on the stack stands for the expansion of the call that put it there. -/
theorem Faithful.expansion_of_enter (h : l.Faithful s) {parent : GateKey}
    (ht : s.enter call parent = .ok t) : ∃ synthesis,
      t.frames = ⟨call.key, synthesis⟩ :: s.frames ∧ t.context = s.context ∧
      ∀ {is final}, l.Expands synthesis.allStages s.context is final →
        l.Expansion call s.context is final := by
  obtain ⟨-, params, synthesis, -, hparams, -, hs, rfl⟩ := Lowering.enter_eq_ok_iff.mp ht
  exact ⟨synthesis, rfl, rfl, fun his =>
    ⟨params, synthesis, h.plan _ _ hparams, h.registry ▸ hs, his⟩⟩

/-- **A run without an error unwinds the stack.** -/
theorem unwinds_drain (hemit : l.options.emitExpansions = true) (h : l.Faithful s)
    (hok : s.drain.error? = none) :
    l.Unwinds s.frames s.context s.drain.instructions s.drain.state.context := by
  -- read backwards: what comes after this move stands for the stack after it
  induction s using Lowering.run_induction with
  | move s ih =>
    have hmoves := s.moves_step
    cases hstep : s.step with
    | finished =>
      rw [Lowering.drain_of_finished hstep]
      rw [hstep] at hmoves
      cases hmoves with
      | failed hfailed => exact nomatch hfailed.symm.trans h.running
      | done _ hframes =>
        rw [hframes]
        exact .nil _
    | silent t =>
      have hfollows : Lowering.Follows t s := Or.inl hstep
      rw [Lowering.drain_of_silent hstep] at hok ⊢
      have hrest := ih t hfollows (h.follows hfollows) hok
      rw [hstep] at hmoves
      cases hmoves with
      | pop _ hframes hnext =>
        rw [hframes]
        exact .cons (expands_of_next_eq_none hnext) hrest
      | expandSilently _ _ _ _ hsilent =>
        rw [h.options, hemit] at hsilent
        cases hsilent
    | item i t =>
      have hfollows : Lowering.Follows t s := Or.inr ⟨i, hstep⟩
      rw [Lowering.drain_of_item hstep] at hok ⊢
      have hrest := ih t hfollows (h.follows hfollows) hok
      rw [hstep] at hmoves
      generalize t.drain.instructions = is at hrest ⊢
      generalize t.drain.state.context = final at hrest ⊢
      cases hmoves with
      | give _ hframes hnext hi =>
        rw [hframes]
        cases hrest with
        | cons hframe houter => exact .cons (Expands.of_next (.plain hi hframe) hnext) houter
      | @expand frame outer _ rest _ _ hframes hnext ht _ =>
        rw [hframes]
        have hused : l.Faithful (s.use frame.key rest outer) :=
          ⟨h.registry, h.options, h.plan, h.running⟩
        obtain ⟨synthesis, hpushed, hcontext, hexpansion⟩ := hused.expansion_of_enter ht
        rw [hpushed, hcontext] at hrest
        -- the gate that was put on the stack, what is left of the topmost one, and the others
        cases hrest with
        | cons hinner hrest =>
          cases hrest with
          | cons hframe houter =>
            rw [← List.append_assoc, ← List.cons_append]
            exact .cons (((hexpansion hinner).expands_marker hframe).of_next hnext) houter
    | failure e t =>
      rw [Lowering.drain_of_failure hstep] at hok
      cases hok

/-! ### Calls -/

variable {seed : Ledger α}

theorem start_faithful {plan : Plan α} (h : l.plan call = .ok plan) (seed : Ledger α) :
    l.Faithful (l.start plan seed) :=
  ⟨rfl, rfl, fun _ _ hslot => resolve_of_plan h hslot, rfl⟩

/-- **What a call gives without an error is its expansion.** -/
theorem expansion_of_lower (hemit : l.options.emitExpansions = true)
    (h : l.lower call seed = .ok s) (hok : s.drain.error? = none) :
    l.Expansion call seed s.drain.instructions s.drain.state.context := by
  obtain ⟨plan, hplan, henter⟩ := lower_eq_ok.mp h
  have hstart := start_faithful hplan seed
  have hunwinds := unwinds_drain hemit (hstart.enter henter) hok
  obtain ⟨synthesis, hframes, hcontext, hexpansion⟩ := hstart.expansion_of_enter henter
  rw [hframes, hcontext] at hunwinds
  generalize s.drain.instructions = is at hunwinds ⊢
  -- the stack holds the gate of the call and nothing else
  cases hunwinds with
  | cons hinner hrest =>
    cases hrest
    rw [List.append_nil]
    exact hexpansion hinner

/-- The calls of some steps one after the other, each behind its marker, and the last ledger. -/
def inSequence (l : Lowerer α) :
    List (GateCall α) → Ledger α → Except (GateError α) (List (Instruction α) × Ledger α)
  | [], ledger => .ok ([], ledger)
  | call :: calls, ledger => do
    let (is, ledger) ← l.lowerInto call ledger
    let (is', ledger) ← l.inSequence calls ledger
    return (.expand call :: is ++ is', ledger)

/-- A planned call of a well-declared registry gives its expansion, on any ledger. -/
theorem lowerInto_of_plan {plan : Plan α} (hemit : l.options.emitExpansions = true)
    (hdecl : l.registry.WellDeclared) (h : l.plan call = .ok plan) (ledger : Ledger α) :
    ∃ is final, l.lowerInto call ledger = .ok (is, final) ∧ l.Expansion call ledger is final := by
  cases hlower : l.lower call ledger with
  | error e => exact nomatch h.symm.trans (lower_eq_error.mp hlower)
  | ok s =>
    obtain ⟨hok, hcomplete⟩ := (lower_safe hdecl hlower).drain hdecl
    refine ⟨s.drain.instructions, s.drain.state.context, ?_, expansion_of_lower hemit hlower hok⟩
    rw [lowerInto, hlower]
    simp only [Except.bind_ok, hok, Lowering.intoContext?, hcomplete, if_pos, Option.getD_some]
    rfl

/-- Planned calls in sequence give the expansion of their markers. -/
theorem inSequence_expands {calls : List (GateCall α)} (hemit : l.options.emitExpansions = true)
    (hdecl : l.registry.WellDeclared) (h : ∀ c ∈ calls, ∃ plan, l.plan c = .ok plan)
    (ledger : Ledger α) : ∃ is final, l.inSequence calls ledger = .ok (is, final) ∧
      l.Expands (calls.map fun c => .emit (.expand c)) ledger is final := by
  induction calls generalizing ledger with
  | nil => exact ⟨[], ledger, rfl, .done ledger⟩
  | cons c calls ih =>
    obtain ⟨plan, hplan⟩ := h c List.mem_cons_self
    obtain ⟨is, middle, hinto, hexp⟩ := lowerInto_of_plan hemit hdecl hplan ledger
    obtain ⟨is', final, hrest, hexp'⟩ := ih (fun c hc => h c (List.mem_cons_of_mem _ hc)) middle
    refine ⟨.expand c :: is ++ is', final, ?_, hexp.expands_marker hexp'⟩
    rw [inSequence, hinto, Except.bind_ok]
    simp only [hrest, Except.bind_ok]
    rfl

/-- The calls of the steps of a planned compound gate are planned too. -/
theorem plans_of_steps {signature : Signature} {steps : List (Step α)} {plan : Plan α}
    (h : l.plan call = .ok plan)
    (hd : l.registry.get? call.key = some (.compound signature steps)) :
    ∃ calls, (steps.mapM fun step => step.bind call signature) = .ok calls ∧
      ∀ c ∈ calls, ∃ plan, l.plan c = .ok plan := by
  have hready := ready_of_plan h
  obtain ⟨visits, hv, -⟩ := id hready
  obtain ⟨room, hroom⟩ := exists_room_of_treePlan hv
  rw [hroom] at hready hv
  obtain ⟨d, params, below, hcheck, -, ⟨synthesis, hs⟩, -, -⟩ := treePlan_succ_eq_ok.mp hv
  cases hd.symm.trans (Registry.checkCall_eq_ok.mp hcheck).1
  rw [Registry.synthesize_compound hd, Registry.markers_eq_ok] at hs
  obtain ⟨calls, hcalls, -⟩ := hs
  refine ⟨calls, hcalls, fun c hc => ?_⟩
  obtain ⟨step, hstep, hbind⟩ := Except.exists_of_mem_result hcalls hc
  exact (hready.below hcheck ⟨step, hstep, hbind⟩).exists_plan (by omega)

/-- **The instructions of a call are those of its expansion**, and its last ledger is the one that the
expansion leaves, where markers count and no error is met. In a well-declared registry the instructions
of a compound gate are, step by step, the marker of the step and what the call of the step gives on the
ledger that the steps before have left. -/
theorem lowering_is_expansion :
    (∀ (l : Lowerer α) (call : GateCall α) (seed : Ledger α) (s : Lowering α),
      l.options.emitExpansions = true → l.lower call seed = .ok s →
      (∀ n e, (s.pulls n).next.1 ≠ some (.error e)) →
      ∀ is final, s.Yields is final ↔ l.Expansion call seed is final) ∧
    (∀ (l : Lowerer α) (call : GateCall α) (seed : Ledger α) (s : Lowering α)
      (signature : Signature) (steps : List (Step α)),
      l.options.emitExpansions = true → l.registry.WellDeclared → l.lower call seed = .ok s →
      l.registry.get? call.key = some (.compound signature steps) →
      ∃ calls is final, (steps.mapM fun step => step.bind call signature) = .ok calls ∧
        l.inSequence calls seed = .ok (is, final) ∧ s.Yields is final) := by
  constructor
  · intro l call seed s hemit hlower hnone is final
    have hok := Lowering.error?_drain hnone
    have hexpansion := expansion_of_lower hemit hlower hok
    constructor
    · intro hyields
      obtain ⟨rfl, rfl⟩ := hyields.unique (Lowering.yields_drain hok)
      exact hexpansion
    · intro h
      obtain ⟨rfl, rfl⟩ := h.deterministic hexpansion
      exact Lowering.yields_drain hok
  · intro l call seed s signature steps hemit hdecl hlower hd
    obtain ⟨plan, hplan, -⟩ := lower_eq_ok.mp hlower
    obtain ⟨calls, hcalls, hplans⟩ := plans_of_steps hplan hd
    obtain ⟨is, final, hseq, hexpands⟩ := inSequence_expands hemit hdecl hplans seed
    have hok := ((lower_safe hdecl hlower).drain hdecl).1
    obtain ⟨params, synthesis, -, hs, hrun⟩ := expansion_of_lower hemit hlower hok
    rw [Registry.synthesize_compound hd, Registry.markers_eq_ok] at hs
    obtain ⟨calls', hcalls', rfl⟩ := hs
    cases hcalls.symm.trans hcalls'
    -- the markers of the steps and the synthesis of the gate are the same stages
    obtain ⟨rfl, rfl⟩ := hexpands.deterministic hrun
    exact ⟨calls, _, _, hcalls, hseq, Lowering.yields_drain hok⟩

/-- The controlled flip of the library gives its expansion, and that is the sequence of its steps. -/
theorem controlledFlip_in_sequence : ∃ s calls is final,
    StandardGates.floatLowerer.lower StandardGates.controlledFlip ∅ = .ok s ∧
      StandardGates.floatLowerer.Expansion StandardGates.controlledFlip ∅ is final ∧
      StandardGates.floatLowerer.inSequence calls ∅ = .ok (is, final) ∧ s.Yields is final := by
  have hok : (StandardGates.floatLowerer.lower StandardGates.controlledFlip ∅).isOk = true := by
    decide +kernel
  have hcompound : (StandardGates.floatRegistry.get? (.plain "CX")).any GateDefinition.isCompound =
      true := by
    decide +kernel
  obtain ⟨s, hs⟩ := Except.isOk_eq_true.mp hok
  have hdecl := StandardGates.extended_floatRegistry.wellDeclared
  have hsafe := lower_safe hdecl hs
  have hexpansion := lowering_is_expansion.1 StandardGates.floatLowerer _ ∅ s rfl hs
    fun n => ((hsafe.pulls hdecl n).next hdecl).1
  cases hget : StandardGates.floatRegistry.get? (.plain "CX") with
  | none =>
    rw [hget] at hcompound
    cases hcompound
  | some d =>
    rw [hget] at hcompound
    cases d with
    | primitive => cases hcompound
    | compound signature steps =>
      obtain ⟨calls, is, final, -, hseq, hyields⟩ := lowering_is_expansion.2
        StandardGates.floatLowerer StandardGates.controlledFlip ∅ s signature steps rfl hdecl hs hget
      exact ⟨s, calls, is, final, hs, (hexpansion is final).mp hyields, hseq, hyields⟩

end Lowerer

end PulseControl
