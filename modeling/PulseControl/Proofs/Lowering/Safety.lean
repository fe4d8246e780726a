import PulseControl.Proofs.Lowering.Running
import PulseControl.Proofs.Lowering.StaticTree
import PulseControl.Proofs.StandardGates.Declared

/-!
# A planned call does not fail

Where all markers are declared, the errors of a call are those of its plan. The invariant of the run is
that every marker that a gate on the stack can still give names a call whose plain walk succeeds with the
room above that gate, and whose slots are all in the plan. The room of the walk and the height of the
stack fit together: a gate at the bottom of `n` others leaves as much room as the walk has left after
`n` steps down the tree.

* `PulseControl.Lowerer.Ready`, `PulseControl.Lowerer.Safe` – the invariant;
* `PulseControl.Lowerer.Safe.step` – every move keeps it and does not fail;
* `PulseControl.Lowerer.planned_calls_never_fail` – so every error of a call comes before its first
  instruction, whatever the ledger.
-/

namespace PulseControl

namespace Lowerer

variable {α : Type} [Scalar α]

/-- A call that can be expanded where `room` gates may nest. -/
def Ready (l : Lowerer α) (plan : Plan α) (room : Nat) (call : GateCall α) : Prop :=
  ∃ visits, l.treePlan room call = .ok visits ∧ ∀ v ∈ visits, plan[v.1]? = some v.2

/-- Every marker that the gates of a stack can still give is ready to be expanded above its gate. -/
inductive ReadyStack (l : Lowerer α) (plan : Plan α) : List (Frame α) → Prop where
  | nil : ReadyStack l plan []
  | cons {frame : Frame α} {outer : List (Frame α)} :
    (∀ x, frame.synthesis.CanEmit (.expand x) →
      l.Ready plan (l.options.maxDepth - (outer.length + 1)) x) →
    ReadyStack l plan outer → ReadyStack l plan (frame :: outer)

/-- **A machine that will not fail.** -/
structure Safe (l : Lowerer α) (s : Lowering α) : Prop where
  registry : s.registry = l.registry
  options : s.options = l.options
  running : s.failed = false
  stack : l.ReadyStack s.plan s.frames

/-- The move does not fail and leaves a safe machine, and where it is the last, nothing is left. -/
def MovesSafely (l : Lowerer α) (s : Lowering α) : Move α → Prop
  | .finished => s.frames = []
  | .silent t => l.Safe t
  | .item _ t => l.Safe t
  | .failure _ _ => False

variable {l : Lowerer α} {plan : Plan α} {room : Nat} {call : GateCall α} {s : Lowering α}

/-- What a gate declares is ready with one place less. -/
theorem Ready.below (h : l.Ready plan (room + 1) call) {definition : GateDefinition α}
    (hd : l.registry.checkCall call = .ok definition) {x : GateCall α}
    (hx : definition.Declares call x) : l.Ready plan room x := by
  obtain ⟨visits, hv, hmem⟩ := h
  obtain ⟨definition', params, below, hd', -, -, hbelow, rfl⟩ := treePlan_succ_eq_ok.mp hv
  obtain rfl : definition = definition' := Except.ok.inj (hd.symm.trans hd')
  obtain ⟨step, hstep, hbind⟩ := hx
  obtain ⟨inner, hinner, htree⟩ := Except.exists_of_mem_mapM hbelow hstep
  rw [hbind, Except.bind_ok] at htree
  exact ⟨inner, htree, fun v hvm =>
    hmem v (List.mem_cons_of_mem _ (List.mem_flatten.mpr ⟨inner, hinner, hvm⟩))⟩

/-- The rest of a synthesis can give only what the whole can. -/
theorem ReadyStack.use {frame : Frame α} {outer : List (Frame α)} {i : Instruction α}
    {rest : Synthesis α} {ledger : Ledger α} (h : l.ReadyStack plan (frame :: outer))
    (hnext : frame.synthesis.next ledger = some (i, rest)) :
    l.ReadyStack plan (⟨frame.key, rest⟩ :: outer) := by
  cases h with
  | cons hframe houter => exact .cons (fun x hx => hframe x (.later ledger hnext hx)) houter

/-- **A ready call can be entered**, and its markers are ready again. -/
theorem Safe.enter (hdecl : l.registry.WellDeclared) (h : l.Safe s)
    (hcall : l.Ready s.plan (l.options.maxDepth - s.frames.length) call) (parent : GateKey) :
    ∃ t, s.enter call parent = .ok t ∧ l.Safe t := by
  obtain ⟨visits, hv, hmem⟩ := id hcall
  -- a walk that succeeds has room, and what it has left below is what the stack has left above
  obtain ⟨room, hroom⟩ := exists_room_of_treePlan hv
  rw [hroom] at hv hcall
  obtain ⟨definition, params, below, hd, hres, ⟨synthesis, hs⟩, -, rfl⟩ :=
    treePlan_succ_eq_ok.mp hv
  have hplan : s.plan[call.slot]? = some params := hmem _ List.mem_cons_self
  have henter : s.enter call parent =
      .ok { s with frames := ⟨call.key, synthesis⟩ :: s.frames } := by
    refine Lowering.enter_eq_ok_iff.mpr ⟨?_, params, synthesis, definition, hplan, ?_, ?_, rfl⟩
    · rw [h.options]
      omega
    · rw [h.registry]
      exact hd
    · rw [h.registry]
      exact hs
  refine ⟨_, henter, h.registry, h.options, h.running, .cons (fun x hx => ?_) h.stack⟩
  have hdeclared : definition.Declares call x :=
    hdecl.declares (Registry.checkCall_eq_ok.mp hd).1 hres hs hx
  have hbelow := hcall.below hd hdeclared
  rwa [show l.options.maxDepth - (s.frames.length + 1) = room by omega]

/-- **One move of a safe machine.** -/
theorem Safe.step (hdecl : l.registry.WellDeclared) (h : l.Safe s) : l.MovesSafely s s.step := by
  -- a marker that comes now names a call that is ready above the gates below it
  have hmarker : ∀ {frame : Frame α} {outer : List (Frame α)} {x : GateCall α} {rest : Synthesis α},
      s.frames = frame :: outer → frame.synthesis.next s.context = some (.expand x, rest) →
      ∃ t, (s.use frame.key rest outer).enter x frame.key = .ok t ∧ l.Safe t := by
    intro frame outer x rest hframes hnext
    have hstack := h.stack
    rw [hframes] at hstack
    have hused : l.Safe (s.use frame.key rest outer) :=
      ⟨h.registry, h.options, h.running, hstack.use hnext⟩
    cases hstack with
    | cons hframe houter => exact hused.enter hdecl (hframe x (.now s.context hnext)) frame.key
  have hmoves := s.moves_step
  generalize s.step = m at hmoves ⊢
  cases hmoves with
  | failed hfailed => exact nomatch hfailed.symm.trans h.running
  | done _ hframes => exact hframes
  | pop _ hframes _ =>
    have hstack := h.stack
    rw [hframes] at hstack
    cases hstack with
    | cons _ houter => exact ⟨h.registry, h.options, h.running, houter⟩
  | give _ hframes hnext _ =>
    have hstack := h.stack
    rw [hframes] at hstack
    exact ⟨h.registry, h.options, h.running, hstack.use hnext⟩
  | refuse _ hframes hnext he =>
    obtain ⟨t, ht, -⟩ := hmarker hframes hnext
    exact nomatch he.symm.trans ht
  | expand _ hframes hnext ht _ =>
    obtain ⟨t', ht', hsafe⟩ := hmarker hframes hnext
    cases ht.symm.trans ht'
    exact hsafe
  | expandSilently _ hframes hnext ht _ =>
    obtain ⟨t', ht', hsafe⟩ := hmarker hframes hnext
    cases ht.symm.trans ht'
    exact hsafe

/-- The next instruction of a safe machine is no error, and leaves it safe. -/
theorem Safe.next (hdecl : l.registry.WellDeclared) (h : l.Safe s) :
    (∀ e, s.next.1 ≠ some (.error e)) ∧ l.Safe s.next.2 := by
  induction s using Lowering.run_induction with
  | move s ih =>
    have hmove := h.step hdecl
    cases hstep : s.step with
    | finished =>
      rw [Lowering.next_of_finished hstep]
      exact ⟨fun e he => (nomatch he), h⟩
    | silent t =>
      rw [hstep] at hmove
      rw [Lowering.next_of_silent hstep]
      exact ih t (Or.inl hstep) hmove
    | item i t =>
      rw [hstep] at hmove
      rw [Lowering.next_of_item hstep]
      exact ⟨fun e he => (nomatch he), hmove⟩
    | failure e t =>
      rw [hstep] at hmove
      exact hmove.elim

theorem Safe.pulls (hdecl : l.registry.WellDeclared) (h : l.Safe s) (n : Nat) :
    l.Safe (s.pulls n) := by
  induction n generalizing s with
  | zero => exact h
  | succ n ih => exact ih (h.next hdecl).2

/-- **A safe machine runs to the end.** -/
theorem Safe.drain (hdecl : l.registry.WellDeclared) (h : l.Safe s) :
    s.drain.error? = none ∧ s.drain.state.isComplete = true := by
  induction s using Lowering.run_induction with
  | move s ih =>
    have hmove := h.step hdecl
    cases hstep : s.step with
    | finished =>
      rw [hstep] at hmove
      rw [Lowering.drain_of_finished hstep]
      refine ⟨rfl, ?_⟩
      rw [Lowering.isComplete, h.running, show s.frames = [] from hmove]
      rfl
    | silent t =>
      rw [hstep] at hmove
      rw [Lowering.drain_of_silent hstep]
      exact ih t (Or.inl hstep) hmove
    | item i t =>
      rw [hstep] at hmove
      rw [Lowering.drain_of_item hstep]
      exact ih t (Or.inr ⟨i, hstep⟩) hmove
    | failure e t =>
      rw [hstep] at hmove
      exact hmove.elim

/-! ### Calls -/

variable {seed : Ledger α}

/-- A call under way starts from its plan, with the gate of the call alone on the stack. -/
theorem lower_eq_ok : l.lower call seed = .ok s ↔
    ∃ plan, l.plan call = .ok plan ∧ (l.start plan seed).enter call call.key = .ok s := by
  rw [lower, Except.bind_eq_ok]

/-- A call under way has the options of its lowerer. -/
theorem options_of_lower (h : l.lower call seed = .ok s) : s.options = l.options := by
  obtain ⟨plan, -, henter⟩ := lower_eq_ok.mp h
  exact (Lowering.enter_frame henter).2.1

/-- A planned call is ready. -/
theorem ready_of_plan (h : l.plan call = .ok plan) : l.Ready plan l.options.maxDepth call := by
  obtain ⟨visits, hv, hmem⟩ := plan_eq_ok.mp h
  exact ⟨visits, hv, fun v hvm => (hmem v.1 v.2).mpr hvm⟩

/-- A call that is ready with no more room than there is has a plan. -/
theorem Ready.exists_plan (h : l.Ready plan room call) (hroom : room ≤ l.options.maxDepth) :
    ∃ plan, l.plan call = .ok plan := by
  obtain ⟨visits, hv, -⟩ := h
  cases hplan : l.plan call with
  | ok plan => exact ⟨plan, rfl⟩
  | error e => exact nomatch (treePlan_mono hv hroom).symm.trans (plan_eq_error.mp hplan)

/-- **The errors of a call are those of its plan**, which does not look at the ledger. -/
theorem lower_eq_error {e : GateError α} :
    l.lower call seed = .error e ↔ l.plan call = .error e := by
  rw [lower, Except.bind_eq_error]
  constructor
  · rintro (h | ⟨plan, hplan, he⟩)
    · exact h
    · -- what stands at the top of the tree has been checked, resolved and synthesized already
      obtain ⟨visits, hv, hmem⟩ := ready_of_plan hplan
      obtain ⟨room, hroom⟩ := exists_room_of_treePlan hv
      rw [hroom] at hv
      obtain ⟨definition, params, below, hd, -, ⟨synthesis, hs⟩, -, rfl⟩ :=
        treePlan_succ_eq_ok.mp hv
      have henter : (l.start plan seed).enter call call.key =
          .ok { l.start plan seed with frames := [⟨call.key, synthesis⟩] } :=
        Lowering.enter_eq_ok_iff.mpr ⟨by rw [start, hroom]; exact Nat.succ_pos room, params,
          synthesis, definition, hmem _ List.mem_cons_self, hd, hs, rfl⟩
      exact nomatch he.symm.trans henter
  · exact Or.inl

/-- A planned call can be started from any ledger. -/
theorem exists_lower_ok (h : l.plan call = .ok plan) (seed : Ledger α) :
    ∃ s, l.lower call seed = .ok s := by
  cases hlower : l.lower call seed with
  | ok s => exact ⟨s, rfl⟩
  | error e => cases h.symm.trans (lower_eq_error.mp hlower)

/-- A call of a well-declared registry under way is safe. -/
theorem lower_safe (hdecl : l.registry.WellDeclared) (h : l.lower call seed = .ok s) : l.Safe s := by
  obtain ⟨plan, hplan, henter⟩ := lower_eq_ok.mp h
  have hstart : l.Safe (l.start plan seed) := ⟨rfl, rfl, rfl, .nil⟩
  obtain ⟨t, ht, hsafe⟩ := hstart.enter hdecl (ready_of_plan hplan) call.key
  cases henter.symm.trans ht
  exact hsafe

/-- **Every error of a call comes before its first instruction.** In a well-declared registry a call that
has been planned gives instructions to the end and no error; whether it can be planned does not depend on
the ledger; and the library with any further compound gates is well-declared. -/
theorem planned_calls_never_fail :
    (∀ l : Lowerer α, l.registry.WellDeclared → ∀ call seed s, l.lower call seed = .ok s →
      (∀ n e, (s.pulls n).next.1 ≠ some (.error e)) ∧
        (∃ n, (s.pulls n).next.1 = none ∧ (s.pulls n).next.2.isComplete = true) ∧
        s.drain.error? = none ∧ s.drain.state.isComplete = true) ∧
    (∀ (l : Lowerer α) (call : GateCall α) (seed seed' : Ledger α) (e : GateError α),
      l.lower call seed = .error e ↔ l.lower call seed' = .error e) ∧
    (∀ r : Registry α, StandardGates.Extended r → r.WellDeclared) := by
  refine ⟨fun l hdecl call seed s h => ?_, fun l call seed seed' e => ?_,
    fun r hr => hr.wellDeclared⟩
  · have hsafe := lower_safe hdecl h
    obtain ⟨hok, hcomplete⟩ := hsafe.drain hdecl
    refine ⟨fun n => ((hsafe.pulls hdecl n).next hdecl).1, ⟨s.drain.instructions.length, ?_⟩, hok,
      hcomplete⟩
    rw [Lowering.next_pulls_length, hok]
    exact ⟨rfl, hcomplete⟩
  · rw [lower_eq_error, lower_eq_error]

/-- The controlled flip of the library gives instructions to the end. -/
theorem controlledFlip_never_fails : ∃ s,
    StandardGates.floatLowerer.lower StandardGates.controlledFlip ∅ = .ok s ∧
      (∀ n e, (s.pulls n).next.1 ≠ some (.error e)) ∧ s.drain.state.isComplete = true := by
  have hok : (StandardGates.floatLowerer.lower StandardGates.controlledFlip ∅).isOk = true := by
    decide +kernel
  obtain ⟨s, hs⟩ := Except.isOk_eq_true.mp hok
  have hdecl := planned_calls_never_fail.2.2 _ StandardGates.extended_floatRegistry
  obtain ⟨hnone, -, -, hcomplete⟩ :=
    planned_calls_never_fail.1 StandardGates.floatLowerer hdecl _ ∅ s hs
  exact ⟨s, hs, hnone, hcomplete⟩

end Lowerer

end PulseControl
