import PulseControl.Proofs.Lowering.Turns

/-!
# The context follows the instructions

The machine keeps a ledger of its own, the context. Whatever happens inside of a pull, gates taken off
the stack, gates put on it, markers that do not count, the context changes by the instruction that the
pull gives and by nothing else, and an error leaves it as it is.

* `PulseControl.Lowering.Pulled`, `PulseControl.Lowering.pulled_next` – what a pull can be;
* `PulseControl.Lowering.context_pulls` – the context is the first ledger with the instructions given so
  far applied in order;
* `PulseControl.Lowering.isComplete_pulls` – a run is complete when it has ended without an error;
* `PulseControl.Lowering.context_drain`, `PulseControl.Lowering.isComplete_drain` – the same for all
  instructions at once.
-/

namespace PulseControl

namespace Lowering

variable {α : Type} [Scalar α] {s t : Lowering α}

/-- **What a pull can be**, as far as the context, the failure and the end are concerned. -/
inductive Pulled (s : Lowering α) :
    Option (Except (GateError α) (Instruction α)) × Lowering α → Prop where
  /-- Nothing comes after an error. -/
  | closed : s.failed = true → Pulled s (none, s)
  /-- Nothing is left. -/
  | ended {t : Lowering α} : s.failed = false → t.failed = false → t.frames = [] →
    t.context = s.context → Pulled s (none, t)
  /-- An instruction comes, and the gate that has given it is still on the stack. -/
  | given {i : Instruction α} {t : Lowering α} : s.failed = false → t.failed = false →
    t.frames ≠ [] → t.context = s.context.apply i → Pulled s (some (.ok i), t)
  /-- An error comes. -/
  | refused {e : GateError α} {t : Lowering α} : s.failed = false → t.failed = true →
    t.context = s.context → Pulled s (some (.error e), t)

omit [Scalar α] in
/-- A move that gives nothing changes nothing that matters to a pull. -/
theorem Pulled.of_silent {answer : Option (Except (GateError α) (Instruction α)) × Lowering α}
    (h : t.Pulled answer) (hs : s.failed = false) (ht : t.failed = false)
    (hcontext : t.context = s.context) : s.Pulled answer := by
  cases h with
  | closed hfailed => cases ht.symm.trans hfailed
  | ended _ hu hframes hc => exact .ended hs hu hframes (hc.trans hcontext)
  | given _ hu hframes hc => exact .given hs hu hframes (by rw [hc, hcontext])
  | refused _ hu hc => exact .refused hs hu (hc.trans hcontext)

/-- **Every pull is one of these.** -/
theorem pulled_next (s : Lowering α) : s.Pulled s.next := by
  induction s using run_induction with
  | move s ih =>
    cases hstep : s.step with
    | finished =>
      rw [next_of_finished hstep]
      cases moves_of_step hstep with
      | failed hfailed => exact .closed hfailed
      | done hrunning hframes => exact .ended hrunning hrunning hframes rfl
    | silent t =>
      have hrest := ih t (Or.inl hstep)
      rw [next_of_silent hstep]
      cases moves_of_step hstep with
      | pop hrunning => exact hrest.of_silent hrunning hrunning rfl
      | expandSilently hrunning _ _ ht _ =>
        obtain ⟨-, -, -, hcontext, hfailed⟩ := enter_frame ht
        exact hrest.of_silent hrunning (hfailed.trans hrunning) hcontext
    | item i t =>
      rw [next_of_item hstep]
      cases moves_of_step hstep with
      | give hrunning => exact .given hrunning hrunning (List.cons_ne_nil _ _) rfl
      | expand hrunning _ _ ht _ =>
        obtain ⟨-, _, _, _, -, -, -, rfl⟩ := enter_eq_ok_iff.mp ht
        exact .given hrunning hrunning (List.cons_ne_nil _ _) rfl
    | failure e t =>
      rw [next_of_failure hstep]
      cases moves_of_step hstep with
      | refuse hrunning => exact .refused hrunning rfl rfl

/-! ### Pulling one by one -/

/-- The instructions that so many pulls give. -/
def given : Nat → Lowering α → List (Instruction α)
  | 0, _ => []
  | n + 1, s =>
    match s.next with
    | (some (.ok i), t) => i :: given n t
    | (_, t) => given n t

/-- **The context is what the instructions given so far make of the first ledger.** -/
theorem context_pulls (s : Lowering α) (n : Nat) :
    (s.pulls n).context = s.context.applyAll (s.given n) := by
  induction n generalizing s with
  | zero => rfl
  | succ n ih =>
    have hpulled := s.pulled_next
    rw [pulls, given, ih]
    generalize s.next = answer at hpulled ⊢
    cases hpulled with
    | closed => rfl
    | ended _ _ _ hcontext => simp only [hcontext]
    | given _ _ _ hcontext => simp only [hcontext, Ledger.applyAll_cons]
    | refused _ _ hcontext => simp only [hcontext]

omit [Scalar α] in
theorem isComplete_iff : s.isComplete = true ↔ s.failed = false ∧ s.frames = [] := by
  simp [isComplete]

theorem pulls_of_failed (h : s.failed = true) (n : Nat) : s.pulls n = s :=
  pulls_of_finished (by rw [step, if_pos h]) n

theorem step_of_complete (h : s.isComplete = true) : s.step = .finished := by
  obtain ⟨hrunning, hframes⟩ := isComplete_iff.mp h
  simp [step, hrunning, hframes]

/-- Among so many pulls, one has given nothing and none has given an error. -/
def EndsWithin (n : Nat) (s : Lowering α) : Prop :=
  (∃ k < n, (s.pulls k).next.1 = none) ∧ ∀ k < n, ∀ e, (s.pulls k).next.1 ≠ some (.error e)

/-- **A run is complete once nothing has come and no error before it.** -/
theorem isComplete_pulls (hrunning : s.failed = false) (hframes : s.frames ≠ []) (n : Nat) :
    (s.pulls n).isComplete = true ↔ s.EndsWithin n := by
  induction n generalizing s with
  | zero =>
    refine iff_of_false (fun h => hframes (isComplete_iff.mp h).2) fun h => ?_
    obtain ⟨⟨k, hk, -⟩, -⟩ := h
    exact Nat.not_lt_zero k hk
  | succ n ih =>
    -- the first pull apart from the others
    rw [EndsWithin, Nat.exists_lt_succ_left, Nat.forall_lt_succ_left]
    simp only [pulls]
    have hpulled := s.pulled_next
    generalize s.next = answer at hpulled ⊢
    cases hpulled with
    | closed hfailed => cases hrunning.symm.trans hfailed
    | @ended t _ ht hempty _ =>
      have hcomplete : t.isComplete = true := isComplete_iff.mpr ⟨ht, hempty⟩
      have hstays := pulls_of_finished (step_of_complete hcomplete)
      have hnext : t.next = (none, t) := next_of_finished (step_of_complete hcomplete)
      refine iff_of_true (by rwa [hstays]) ⟨Or.inl rfl, fun e he => (by cases he), fun k _ e he => ?_⟩
      rw [hstays, hnext] at he
      cases he
    | given _ ht hne _ =>
      rw [ih ht hne, EndsWithin]
      exact ⟨fun h => ⟨Or.inr h.1, fun e he => (by cases he), h.2⟩,
        fun h => ⟨h.1.resolve_left (Option.some_ne_none _), h.2.2⟩⟩
    | refused _ ht _ =>
      rw [pulls_of_failed ht]
      refine iff_of_false (fun h => ?_) fun h => h.2.1 _ rfl
      cases ht.symm.trans (isComplete_iff.mp h).1

/-! ### All instructions at once -/

/-- The context at the end is what all instructions make of the first ledger. -/
theorem context_drain (s : Lowering α) :
    s.drain.state.context = s.context.applyAll s.drain.instructions := by
  induction s using drain_induction with
  | finished s _ hdrain =>
    rw [hdrain]
    rfl
  | silent s t hstep hdrain ih =>
    rw [hdrain, ih]
    cases moves_of_step hstep with
    | pop => rfl
    | expandSilently _ _ _ ht _ =>
      have hcontext : t.context = s.context := (enter_frame ht).2.2.2.1
      rw [hcontext]
  | item s i t hstep hdrain ih =>
    rw [hdrain, Ledger.applyAll_cons]
    refine ih.trans ?_
    cases moves_of_step hstep with
    | give => rfl
    | expand _ _ _ ht _ =>
      have hcontext : t.context = s.context := (enter_frame ht).2.2.2.1
      rw [hcontext]
      rfl
  | failure s e t hstep hdrain =>
    rw [hdrain]
    cases moves_of_step hstep with
    | refuse => rfl

/-- A run that meets no error is complete at its end. -/
theorem isComplete_drain (hrunning : s.failed = false) (hok : s.drain.error? = none) :
    s.drain.state.isComplete = true := by
  induction s using drain_induction with
  | finished s hstep hdrain =>
    rw [hdrain]
    cases moves_of_step hstep with
    | failed hfailed => cases hrunning.symm.trans hfailed
    | done _ hframes => exact isComplete_iff.mpr ⟨hrunning, hframes⟩
  | silent s t hstep hdrain ih =>
    have hfollows : Follows t s := Or.inl hstep
    rw [hdrain] at hok ⊢
    exact ih (hfollows.same.2.2.2.trans hrunning) hok
  | item s i t hstep hdrain ih =>
    have hfollows : Follows t s := Or.inr ⟨i, hstep⟩
    rw [hdrain] at hok ⊢
    exact ih (hfollows.same.2.2.2.trans hrunning) hok
  | failure s e t _ hdrain =>
    rw [hdrain] at hok
    cases hok

end Lowering

end PulseControl
