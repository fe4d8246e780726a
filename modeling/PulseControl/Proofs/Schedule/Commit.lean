import PulseControl.Proofs.Lowering.Context
import PulseControl.Proofs.Schedule.Records

/-!
# Two ways to keep the outcome of a call

A ledger that is kept takes over the context of the machine at the end of the run. A schedule has the
instructions collected and applies them to its own ledger. Both come to the same, because the context is
at every time what the instructions given so far make of the ledger that the call started from.

* `PulseControl.Lowerer.context_of_lower` – the context of a call under way;
* `PulseControl.Lowerer.lowerInto_of_drain` – the ledger that is taken over;
* `PulseControl.Lowerer.commits_agree` – the two ways agree.
-/

namespace PulseControl

namespace Lowering

variable {α : Type}

/-- The ledger is given out once the run is complete, and it is the context. -/
theorem intoContext?_eq_some {s : Lowering α} {final : Ledger α} :
    s.intoContext? = some final ↔ s.isComplete = true ∧ s.context = final := by
  rw [intoContext?, Option.ite_none_right_eq_some, Option.some.injEq]

end Lowering

namespace Lowerer

variable {α : Type} [Scalar α] {l : Lowerer α} {call : GateCall α} {seed : Ledger α}
  {first : Lowering α} {e : GateError α}

/-- A call under way begins without a failure, with its gate on the stack and with the ledger that it is
started from. -/
theorem begins_of_lower (h : l.lower call seed = .ok first) :
    first.failed = false ∧ first.frames ≠ [] ∧ first.context = seed := by
  obtain ⟨plan, -, henter⟩ := lower_eq_ok.mp h
  obtain ⟨-, _, _, _, -, -, -, rfl⟩ := Lowering.enter_eq_ok_iff.mp henter
  exact ⟨rfl, List.cons_ne_nil _ _, rfl⟩

/-- **The context of a call under way** is what the instructions given so far make of the ledger that it
started from. -/
theorem context_of_lower (h : l.lower call seed = .ok first) (n : Nat) :
    (first.pulls n).context = seed.applyAll (first.given n) := by
  obtain ⟨-, -, hcontext⟩ := begins_of_lower h
  rw [Lowering.context_pulls, hcontext]

/-! ### The ledger that is taken over -/

theorem lowerInto_of_lower_error (h : l.lower call seed = .error e) :
    l.lowerInto call seed = .error e := by
  rw [lowerInto, h]
  rfl

theorem lowerInto_of_drain_error (h : l.lower call seed = .ok first)
    (he : first.drain.error? = some e) : l.lowerInto call seed = .error e := by
  simp only [lowerInto, h, Except.bind_ok, he]
  rfl

/-- **The ledger that is taken over** is what all instructions make of the one before. -/
theorem lowerInto_of_drain (h : l.lower call seed = .ok first) (hok : first.drain.error? = none) :
    l.lowerInto call seed =
      .ok (first.drain.instructions, seed.applyAll first.drain.instructions) := by
  obtain ⟨hrunning, -, hcontext⟩ := begins_of_lower h
  have hgiven : first.drain.state.intoContext? = some (seed.applyAll first.drain.instructions) := by
    refine Lowering.intoContext?_eq_some.mpr ⟨Lowering.isComplete_drain hrunning hok, ?_⟩
    rw [Lowering.context_drain, hcontext]
  simp only [lowerInto, h, Except.bind_ok, hok, hgiven]
  rfl

/-! ### Agreement -/

/-- **The two ways to keep the outcome of a call agree.** After any number of pulls the context is what
the instructions given make of the first ledger; the run is complete, and the context given out, exactly
if it has ended without an error. So a ledger that takes over the context and a schedule that applies
the instructions both fail with the same error and stay as they are, or have the same instructions and
end in the same ledger. -/
theorem commits_agree (l : Lowerer α) (call : GateCall α) :
    (∀ seed first, l.lower call seed = .ok first → ∀ n,
      (first.pulls n).context = seed.applyAll (first.given n) ∧
      ((first.pulls n).isComplete = true ↔ first.EndsWithin n) ∧
      ∀ final, (first.pulls n).intoContext? = some final ↔
        first.EndsWithin n ∧ seed.applyAll (first.given n) = final) ∧
    ∀ s : Schedule α,
      (∃ e, l.lowerOnto call s.ledger = (.error e, s.ledger) ∧ s.run l call = (.error e, s)) ∨
      ∃ is final s', l.lowerOnto call s.ledger = (.ok is, final) ∧
        s.run l call = (.ok is.length, s') ∧ s'.log = s.log ++ is ∧ s'.ledger = final := by
  constructor
  · intro seed first h n
    obtain ⟨hrunning, hframes, -⟩ := begins_of_lower h
    have hcontext := context_of_lower h n
    have hcomplete := Lowering.isComplete_pulls hrunning hframes n
    refine ⟨hcontext, hcomplete, fun final => ?_⟩
    rw [Lowering.intoContext?_eq_some, hcomplete, hcontext]
  · intro s
    cases hlower : l.lower call s.ledger with
    | error e =>
      refine Or.inl ⟨e, ?_, Schedule.run_of_lower_error hlower⟩
      rw [lowerOnto, lowerInto_of_lower_error hlower]
    | ok first =>
      cases herror : first.drain.error? with
      | some e =>
        refine Or.inl ⟨e, ?_, Schedule.run_of_drain_error hlower herror⟩
        rw [lowerOnto, lowerInto_of_drain_error hlower herror]
      | none =>
        refine Or.inr ⟨_, _, _, ?_, Schedule.run_of_drain hlower herror, s.log_applyAll _,
          s.ledger_applyAll _⟩
        rw [lowerOnto, lowerInto_of_drain hlower herror]

/-- The controlled flip gives out a ledger at the end, and both ways to keep its outcome agree. -/
theorem controlledFlip_commits : ∃ first n final is s',
    StandardGates.floatLowerer.lower StandardGates.controlledFlip ∅ = .ok first ∧
      ((first.pulls n).intoContext? = some final ∧ Ledger.applyAll ∅ (first.given n) = final) ∧
      StandardGates.floatLowerer.lowerOnto StandardGates.controlledFlip ∅ = (.ok is, s'.ledger) ∧
      (Schedule.ofLedger ∅).run StandardGates.floatLowerer StandardGates.controlledFlip =
        (.ok is.length, s') := by
  obtain ⟨plan, hplan⟩ := StandardGates.exists_plan_controlledFlip
  obtain ⟨first, hfirst⟩ := exists_lower_ok hplan ∅
  have hdecl : StandardGates.floatLowerer.registry.WellDeclared :=
    StandardGates.extended_floatRegistry.wellDeclared
  obtain ⟨hpulls, hkept⟩ := commits_agree StandardGates.floatLowerer StandardGates.controlledFlip
  obtain ⟨hrun, hcomplete⟩ := (lower_safe hdecl hfirst).drain hdecl
  -- one more pull than there are instructions leads to the end
  have hend : (first.pulls (first.drain.instructions.length + 1)).isComplete = true := by
    rwa [Lowering.pulls_add, Lowering.pulls, Lowering.next_pulls_length, hrun]
  have hgiven := Lowering.intoContext?_eq_some.mpr ⟨hend, rfl⟩
  have hfinal := ((hpulls ∅ first hfirst _).2.2 _).mp hgiven
  rcases hkept (Schedule.ofLedger ∅) with ⟨e, -, hfails⟩ | ⟨is, final, s', honto, hruns, -, rfl⟩
  · have hruns := Schedule.run_of_drain (s := Schedule.ofLedger ∅) hfirst hrun
    cases (Prod.mk.inj (hfails.symm.trans hruns)).1
  · exact ⟨first, _, _, is, s', hfirst, ⟨hgiven, hfinal.2⟩, honto, hruns⟩

end Lowerer

end PulseControl
