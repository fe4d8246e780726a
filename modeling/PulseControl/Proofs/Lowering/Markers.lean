import PulseControl.Proofs.Ledger.Blocks
import PulseControl.Proofs.Lowering.Context
import PulseControl.Proofs.Lowering.Expansion

/-!
# Markers that are not shown

Whether markers are part of the output is an option, and the machine asks for it in every move that puts
a gate on the stack. Beside a machine runs the same one with markers: both make the same moves, only that
a marker may be an instruction of the second and a silent move of the first. So what a call gives is its
expansion, whatever the options, with the markers taken out where they are not wanted.

* `PulseControl.LoweringOptions.shown` – what the options let through;
* `PulseControl.Lowering.mirrors_step` – the move of a machine and that of the one with markers;
* `PulseControl.Lowering.drain_withMarkers` – their runs;
* `PulseControl.Lowerer.lower_withMarkers` – the two machines of a call;
* `PulseControl.Lowerer.shown_expansion_of_lower` – what a call gives under any options.
-/

namespace PulseControl

variable {α : Type}

/-! ### What is shown -/

/-- **What the options let through**: all instructions, or all but the markers. -/
def LoweringOptions.shown (o : LoweringOptions) (is : List (Instruction α)) : List (Instruction α) :=
  is.filter fun i => o.emitExpansions || !i.isExpand

namespace LoweringOptions

variable {o : LoweringOptions} {i : Instruction α} {is : List (Instruction α)}

theorem mem_shown : i ∈ o.shown is ↔ i ∈ is ∧ (o.emitExpansions = true ∨ i.isExpand = false) := by
  simp [shown]

theorem shown_cons (h : o.emitExpansions = true ∨ i.isExpand = false) (is : List (Instruction α)) :
    o.shown (i :: is) = i :: o.shown is := by
  rw [shown, List.filter_cons_of_pos (by simpa using h), ← shown]

theorem shown_marker (h : o.emitExpansions = false) (call : GateCall α) (is : List (Instruction α)) :
    o.shown (.expand call :: is) = o.shown is := by
  rw [shown, List.filter_cons_of_neg (by simp [h, Instruction.isExpand]), ← shown]

/-- An instruction is let through, unless it is a marker. -/
theorem shown_cons_cases (o : LoweringOptions) (i : Instruction α) (is : List (Instruction α)) :
    o.shown (i :: is) = i :: o.shown is ∨
      ∃ call, i = .expand call ∧ o.shown (i :: is) = o.shown is := by
  by_cases hshown : o.emitExpansions = true ∨ i.isExpand = false
  · exact Or.inl (shown_cons hshown is)
  · rw [not_or, Bool.not_eq_true, Bool.not_eq_false] at hshown
    obtain ⟨hhidden, hmarker⟩ := hshown
    cases i with
    | expand call => exact Or.inr ⟨call, rfl, shown_marker hhidden call is⟩
    | addWaveform | setState => cases hmarker

theorem shown_append (is js : List (Instruction α)) : o.shown (is ++ js) = o.shown is ++ o.shown js :=
  List.filter_append is js

end LoweringOptions

/-- A ledger does not see whether markers are shown. -/
theorem Ledger.applyAll_shown (o : LoweringOptions) (l : Ledger α) (is : List (Instruction α)) :
    l.applyAll (o.shown is) = l.applyAll is := by
  induction is generalizing l with
  | nil => rfl
  | cons i is ih =>
    rcases o.shown_cons_cases i is with hshown | ⟨call, rfl, hhidden⟩
    · rw [hshown, applyAll_cons, applyAll_cons, ih]
    · rw [hhidden, applyAll_cons, ih]
      rfl

/-- What belongs to an instruction still follows it, as far as it is shown. -/
theorem Ledger.Followed.shown {E : Ledger α → Instruction α → List (Instruction α) → Prop}
    {l : Ledger α} {is : List (Instruction α)} (h : l.Followed E is) (o : LoweringOptions)
    (hE : ∀ l i inner, E l i inner → E l i (o.shown inner)) : l.Followed E (o.shown is) := by
  induction is generalizing l with
  | nil => trivial
  | cons i is ih =>
    obtain ⟨⟨inner, rest, his, hi⟩, htail⟩ := h
    rcases o.shown_cons_cases i is with hshown | ⟨call, rfl, hhidden⟩
    · rw [hshown]
      refine ⟨⟨o.shown inner, o.shown rest, ?_, hE _ _ _ hi⟩, ih htail⟩
      rw [his, LoweringOptions.shown_append]
    · rw [hhidden]
      exact ih htail

/-! ### The machine with markers -/

namespace Lowering

/-- The same machine with markers that count. -/
def withMarkers (s : Lowering α) : Lowering α :=
  { s with options := { s.options with emitExpansions := true } }

variable [Scalar α] {s t : Lowering α}

/-- A gate is put on the stack of a machine with markers where it is put on the other. -/
theorem enter_withMarkers (s : Lowering α) (call : GateCall α) (parent : GateKey) :
    s.withMarkers.enter call parent = (s.enter call parent).map withMarkers := by
  rcases Nat.lt_or_ge s.frames.length s.options.maxDepth with hroom | hfull
  · cases hplan : s.plan[call.slot]? with
    | none =>
      rw [enter_of_unplanned hroom hplan, enter_of_unplanned (s := s.withMarkers) hroom hplan]
      rfl
    | some params =>
      rw [enter_of_planned hroom hplan, enter_of_planned (s := s.withMarkers) hroom hplan]
      change (s.registry.checkedSynthesis call params).map _ = _
      cases s.registry.checkedSynthesis call params <;> rfl
  · rw [enter_of_full hfull, enter_of_full (s := s.withMarkers) hfull]
    rfl

/-- **How a move and the move of the machine with markers correspond.** -/
inductive Mirrors (s : Lowering α) : Move α → Move α → Prop where
  | finished : Mirrors s .finished .finished
  | silent (t : Lowering α) : t.options = s.options →
    Mirrors s (.silent t) (.silent t.withMarkers)
  | item (i : Instruction α) (t : Lowering α) : t.options = s.options →
    s.options.emitExpansions = true ∨ i.isExpand = false →
    Mirrors s (.item i t) (.item i t.withMarkers)
  /-- A marker that is not shown. -/
  | hidden (call : GateCall α) (t : Lowering α) : t.options = s.options →
    s.options.emitExpansions = false → Mirrors s (.silent t) (.item (.expand call) t.withMarkers)
  | failure (e : GateError α) (t : Lowering α) : Mirrors s (.failure e t) (.failure e t.withMarkers)

/-- **Every move is mirrored.** -/
theorem mirrors_step (s : Lowering α) : s.Mirrors s.step s.withMarkers.step := by
  -- what the machine with markers does is read off from what the other one does
  have hmoves := s.moves_step
  generalize s.step = m at hmoves ⊢
  rcases hmoves with hfailed | ⟨hrunning, hframes⟩ | ⟨hrunning, hframes, hnext⟩ |
    ⟨hrunning, hframes, hnext, hi⟩ | @⟨frame, outer, call, rest, e, hrunning, hframes, hnext, he⟩ |
    @⟨frame, outer, call, rest, t, hrunning, hframes, hnext, ht, hemit⟩ |
    @⟨frame, outer, call, rest, t, hrunning, hframes, hnext, ht, hhidden⟩
  · rw [(Moves.failed (s := s.withMarkers) hfailed).step_eq]
    exact .finished
  · rw [(Moves.done (s := s.withMarkers) hrunning hframes).step_eq]
    exact .finished
  · rw [(Moves.pop (s := s.withMarkers) hrunning hframes hnext).step_eq]
    exact .silent _ rfl
  · rw [(Moves.give (s := s.withMarkers) hrunning hframes hnext hi).step_eq]
    exact .item _ _ rfl (Or.inr hi)
  all_goals have hentered := enter_withMarkers (s.use frame.key rest outer) call frame.key
  · rw [he] at hentered
    rw [(Moves.refuse (s := s.withMarkers) hrunning hframes hnext hentered).step_eq]
    exact .failure e _
  · rw [ht] at hentered
    rw [(Moves.expand (s := s.withMarkers) hrunning hframes hnext hentered rfl).step_eq]
    exact .item _ _ (enter_frame ht).2.1 (Or.inl hemit)
  · rw [ht] at hentered
    rw [(Moves.expand (s := s.withMarkers) hrunning hframes hnext hentered rfl).step_eq]
    exact .hidden _ _ (enter_frame ht).2.1 hhidden

/-- **A run and the run of the machine with markers**: what the first gives is shown of what the second
gives, and they end alike. -/
theorem drain_withMarkers (s : Lowering α) :
    s.drain.instructions = s.options.shown s.withMarkers.drain.instructions ∧
      s.withMarkers.drain.error? = s.drain.error? ∧
      s.withMarkers.drain.state = s.drain.state.withMarkers := by
  induction s using run_induction with
  | move s ih =>
    have hmirrors := s.mirrors_step
    generalize hmove : s.step = m at hmirrors
    generalize hmarked : s.withMarkers.step = m' at hmirrors
    cases hmirrors with
    | finished =>
      rw [drain_of_finished hmove, drain_of_finished hmarked]
      exact ⟨rfl, rfl, rfl⟩
    | silent t hoptions =>
      rw [drain_of_silent hmove, drain_of_silent hmarked, ← hoptions]
      exact ih t (Or.inl hmove)
    | item i t hoptions hshown =>
      obtain ⟨his, herror, hstate⟩ := ih t (Or.inr ⟨i, hmove⟩)
      rw [drain_of_item hmove, drain_of_item hmarked]
      refine ⟨?_, herror, hstate⟩
      rw [LoweringOptions.shown_cons hshown, his, hoptions]
    | hidden call t hoptions hhidden =>
      obtain ⟨his, herror, hstate⟩ := ih t (Or.inl hmove)
      rw [drain_of_silent hmove, drain_of_item hmarked]
      refine ⟨?_, herror, hstate⟩
      rw [LoweringOptions.shown_marker hhidden, his, hoptions]
    | failure e t =>
      rw [drain_of_failure hmove, drain_of_failure hmarked]
      exact ⟨rfl, rfl, rfl⟩

end Lowering

/-! ### Calls -/

namespace Lowerer

/-- The same lowerer with markers that count. -/
def withMarkers (l : Lowerer α) : Lowerer α :=
  { l with options := { l.options with emitExpansions := true } }

variable [Scalar α] {l : Lowerer α} {call : GateCall α} {seed : Ledger α} {s : Lowering α}

/-- Markers do not enter into the plan. -/
theorem planCall_withMarkers (l : Lowerer α) (room : Nat) (call : GateCall α) (p : Planning α) :
    l.withMarkers.planCall room call p = l.planCall room call p := by
  induction room generalizing call p with
  | zero => rfl
  | succ room ih =>
    have hsteps : ∀ signature steps (p : Planning α),
        l.withMarkers.planSteps room call signature steps p =
          l.planSteps room call signature steps p := by
      intro signature steps p
      simp only [planSteps, ih]
    simp only [planCall_succ, hsteps]
    rfl

/-- **The two machines of a call.** -/
theorem lower_withMarkers (l : Lowerer α) (call : GateCall α) (seed : Ledger α) :
    l.withMarkers.lower call seed = (l.lower call seed).map Lowering.withMarkers := by
  have hplan : l.withMarkers.plan call = l.plan call :=
    congrArg (·.map Planning.plan) (planCall_withMarkers l l.options.maxDepth call ∅)
  rw [lower, lower, hplan]
  cases l.plan call with
  | error e => rfl
  | ok plan => exact (l.start plan seed).enter_withMarkers call call.key

/-- Stages stand for the same with markers and without, for markers are in every expansion. -/
theorem Expands.of_withMarkers {stages : List (Stage α)} {is : List (Instruction α)}
    {ledger final : Ledger α} (h : l.withMarkers.Expands stages ledger is final) :
    l.Expands stages ledger is final := by
  induction h with
  | done ledger => exact .done ledger
  | plain hi _ ih => exact .plain hi ih
  | deferred _ ih => exact .deferred ih
  | marker hres hs _ _ ihinner ih => exact .marker hres hs ihinner ih

/-- **What a call gives without an error** is shown of its expansion, whatever the options. -/
theorem shown_expansion_of_lower (h : l.lower call seed = .ok s) (hok : s.drain.error? = none) :
    ∃ is, l.Expansion call seed is s.drain.state.context ∧
      s.drain.instructions = l.options.shown is := by
  have hmarked : l.withMarkers.lower call seed = .ok s.withMarkers := by
    rw [lower_withMarkers, h]
    rfl
  obtain ⟨hshown, herror, hstate⟩ := s.drain_withMarkers
  obtain ⟨params, synthesis, hres, hs, hexpands⟩ :=
    expansion_of_lower (l := l.withMarkers) rfl hmarked (herror.trans hok)
  have hcontext : s.withMarkers.drain.state.context = s.drain.state.context := by
    rw [hstate]
    rfl
  refine ⟨_, ⟨params, synthesis, hres, hs, hcontext ▸ hexpands.of_withMarkers⟩, ?_⟩
  rw [hshown, options_of_lower h]

end Lowerer

end PulseControl
