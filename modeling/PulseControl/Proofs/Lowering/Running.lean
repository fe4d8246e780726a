import PulseControl.Lowering.Machine
import PulseControl.Proofs.Except
import PulseControl.Proofs.Synthesis

/-!
# Moves and runs of the machine

What one move of the machine can be, once and for all: the proofs about runs go through the cases of
`PulseControl.Lowering.Moves` and never look into the step function. The registry, the options and the
plan stay the same in every move.

* `PulseControl.Lowering.enter_eq_ok_iff` – when a gate is put on the stack;
* `PulseControl.Lowering.moves_step` – what a move is;
* `PulseControl.Lowering.next_of_silent`, `PulseControl.Lowering.drain_of_item` and the like – the next
  instruction, and all of them, by the first move;
* `PulseControl.Lowering.run_induction`, `PulseControl.Lowering.drain_induction` – induction along a run;
* `PulseControl.Lowering.Yields`, `PulseControl.Lowering.yields_drain` – all instructions are those
  taken one by one.
-/

namespace PulseControl

/-- What a call gives by itself when its gate is put on the stack: the error of its check or of its
synthesis, or the synthesis. -/
def Registry.checkedSynthesis {α : Type} [Scalar α] (r : Registry α) (call : GateCall α)
    (params : Params α) : Except (GateError α) (Synthesis α) := do
  discard (r.checkCall call)
  r.synthesize call params

namespace Lowering

variable {α : Type}

/-! ### One move -/

/-- The machine when the topmost gate has given an instruction. -/
def use (s : Lowering α) (key : GateKey) (rest : Synthesis α) (outer : List (Frame α)) :
    Lowering α :=
  { s with frames := ⟨key, rest⟩ :: outer }

variable [Scalar α]

/-- **A gate is put on the stack** where there is room, the plan has parameters for it and the call
passes the checks. -/
theorem enter_eq_ok_iff {s t : Lowering α} {call : GateCall α} {parent : GateKey} :
    s.enter call parent = .ok t ↔ s.frames.length < s.options.maxDepth ∧
      ∃ params synthesis definition, s.plan[call.slot]? = some params ∧
        s.registry.checkCall call = .ok definition ∧
        s.registry.synthesize call params = .ok synthesis ∧
        t = { s with frames := ⟨call.key, synthesis⟩ :: s.frames } := by
  rw [enter]
  split
  · next hfull =>
    exact iff_of_false (fun h => nomatch h) fun h => absurd h.1 (Nat.not_lt.mpr hfull)
  · next hroom =>
    split
    · next hnone => simp [hnone]
    · next params hparams =>
      simp only [Except.bind_eq_ok, Except.discard_eq_ok, hparams, Option.some.injEq]
      constructor
      · rintro ⟨-, ⟨definition, hd⟩, synthesis, hs, h⟩
        exact ⟨Nat.lt_of_not_le hroom, params, synthesis, definition, rfl, hd, hs,
          (Except.ok.inj h).symm⟩
      · rintro ⟨-, _, synthesis, definition, rfl, hd, hs, rfl⟩
        exact ⟨PUnit.unit, ⟨definition, hd⟩, synthesis, hs, rfl⟩

/-- No gate is put on a full stack. -/
theorem enter_of_full {s : Lowering α} {call : GateCall α} {parent : GateKey}
    (h : s.options.maxDepth ≤ s.frames.length) :
    s.enter call parent = .error (.expansionDepth call.key s.options.maxDepth) := by
  rw [enter, if_pos h]

/-- A gate without parameters in the plan is undeclared. -/
theorem enter_of_unplanned {s : Lowering α} {call : GateCall α} {parent : GateKey}
    (hroom : s.frames.length < s.options.maxDepth) (hplan : s.plan[call.slot]? = none) :
    s.enter call parent = .error (.undeclaredExpansion parent call.key call.targets) := by
  rw [enter, if_neg (Nat.not_le.mpr hroom), hplan]

/-- A gate with parameters in the plan is checked again and synthesized. -/
theorem enter_of_planned {s : Lowering α} {call : GateCall α} {parent : GateKey} {params : Params α}
    (hroom : s.frames.length < s.options.maxDepth) (hplan : s.plan[call.slot]? = some params) :
    s.enter call parent = (s.registry.checkedSynthesis call params).map fun synthesis =>
      { s with frames := ⟨call.key, synthesis⟩ :: s.frames } := by
  rw [enter, if_neg (Nat.not_le.mpr hroom), hplan, Registry.checkedSynthesis]
  cases s.registry.checkCall call with
  | error e => rfl
  | ok d => cases hs : s.registry.synthesize call params <;> simp [hs, Except.map]

/-- **What a move can be.** -/
inductive Moves (s : Lowering α) : Move α → Prop where
  /-- After an error there is nothing more. -/
  | failed : s.failed = true → Moves s .finished
  /-- No gate is left. -/
  | done : s.failed = false → s.frames = [] → Moves s .finished
  /-- The topmost gate has nothing left. -/
  | pop {frame : Frame α} {outer : List (Frame α)} : s.failed = false →
    s.frames = frame :: outer → frame.synthesis.next s.context = none →
    Moves s (.silent { s with frames := outer })
  /-- The topmost gate gives an instruction. -/
  | give {frame : Frame α} {outer : List (Frame α)} {i : Instruction α} {rest : Synthesis α} :
    s.failed = false → s.frames = frame :: outer →
    frame.synthesis.next s.context = some (i, rest) → i.isExpand = false →
    Moves s (.item i { s.use frame.key rest outer with context := s.context.apply i })
  /-- The topmost gate gives a marker, and the gate that it names is refused. -/
  | refuse {frame : Frame α} {outer : List (Frame α)} {call : GateCall α} {rest : Synthesis α}
    {e : GateError α} : s.failed = false → s.frames = frame :: outer →
    frame.synthesis.next s.context = some (.expand call, rest) →
    (s.use frame.key rest outer).enter call frame.key = .error e →
    Moves s (.failure e { s.use frame.key rest outer with failed := true })
  /-- The topmost gate gives a marker that counts, and the gate that it names is put on the stack. -/
  | expand {frame : Frame α} {outer : List (Frame α)} {call : GateCall α} {rest : Synthesis α}
    {t : Lowering α} : s.failed = false → s.frames = frame :: outer →
    frame.synthesis.next s.context = some (.expand call, rest) →
    (s.use frame.key rest outer).enter call frame.key = .ok t → s.options.emitExpansions = true →
    Moves s (.item (.expand call) t)
  /-- The topmost gate gives a marker that does not count, and the gate that it names is put on the
  stack. -/
  | expandSilently {frame : Frame α} {outer : List (Frame α)} {call : GateCall α}
    {rest : Synthesis α} {t : Lowering α} : s.failed = false → s.frames = frame :: outer →
    frame.synthesis.next s.context = some (.expand call, rest) →
    (s.use frame.key rest outer).enter call frame.key = .ok t → s.options.emitExpansions = false →
    Moves s (.silent t)

/-- **Every move is one of these.** -/
theorem moves_step (s : Lowering α) : s.Moves s.step := by
  rw [step]
  split
  · next hfailed => exact .failed hfailed
  · next hfailed =>
    have hfailed : s.failed = false := Bool.eq_false_iff.mpr hfailed
    split
    · next hframes => exact .done hfailed hframes
    · next frame outer hframes =>
      split
      · next hnext => exact .pop hfailed hframes hnext
      · next call rest hnext =>
        dsimp only
        split
        · next e he => exact .refuse hfailed hframes hnext he
        · next t ht =>
          split
          · next hemit => exact .expand hfailed hframes hnext ht hemit
          · next hemit =>
            exact .expandSilently hfailed hframes hnext ht (Bool.eq_false_iff.mpr hemit)
      · -- the last case of the step function is any instruction but a marker
        next i rest hnot hnext =>
        refine .give hfailed hframes hnext ?_
        cases i with
        | expand call => exact absurd rfl (hnot call)
        | addWaveform channel waveform => rfl
        | setState update => rfl

theorem moves_of_step {s : Lowering α} {m : Move α} (h : s.step = m) : s.Moves m :=
  h ▸ s.moves_step

/-- **There is one move at most.** -/
theorem Moves.step_eq {s : Lowering α} {m : Move α} (h : s.Moves m) : s.step = m := by
  rcases h with hfailed | ⟨hrunning, hframes⟩ | ⟨hrunning, hframes, hnext⟩ |
    @⟨frame, outer, i, rest, hrunning, hframes, hnext, hi⟩ | ⟨hrunning, hframes, hnext, he⟩ |
    ⟨hrunning, hframes, hnext, ht, hemit⟩ | ⟨hrunning, hframes, hnext, ht, hhidden⟩
  · rw [step, if_pos hfailed]
  · simp only [step, hrunning, hframes, Bool.false_eq_true, if_false]
  · simp only [step, hrunning, hframes, hnext, Bool.false_eq_true, if_false]
  · rcases i with _ | _ | call
    · simp only [step, use, hrunning, hframes, hnext, Bool.false_eq_true, if_false]
    · simp only [step, use, hrunning, hframes, hnext, Bool.false_eq_true, if_false]
    · exact absurd hi Bool.noConfusion
  · simp only [use, hrunning] at he
    simp only [step, use, hrunning, hframes, hnext, he, Bool.false_eq_true, if_false]
  · simp only [use, hrunning] at ht
    simp only [step, hrunning, hframes, hnext, ht, hemit, Bool.false_eq_true, if_false, if_true]
  · simp only [use, hrunning] at ht
    simp only [step, hrunning, hframes, hnext, ht, hhidden, Bool.false_eq_true, if_false]

/-- A marker that comes puts its gate on the stack, whether it counts or not. -/
theorem follows_of_entered {s t : Lowering α} {frame : Frame α} {outer : List (Frame α)}
    {call : GateCall α} {rest : Synthesis α} (hrunning : s.failed = false)
    (hframes : s.frames = frame :: outer)
    (hnext : frame.synthesis.next s.context = some (.expand call, rest))
    (ht : (s.use frame.key rest outer).enter call frame.key = .ok t) : Follows t s := by
  rcases hemit : s.options.emitExpansions with _ | _
  · exact Or.inl (Moves.expandSilently hrunning hframes hnext ht hemit).step_eq
  · exact Or.inr ⟨.expand call, (Moves.expand hrunning hframes hnext ht hemit).step_eq⟩

/-- A gate that is put on the stack changes nothing else. -/
theorem enter_frame {s t : Lowering α} {call : GateCall α} {parent : GateKey}
    (h : s.enter call parent = .ok t) : t.registry = s.registry ∧ t.options = s.options ∧
      t.plan = s.plan ∧ t.context = s.context ∧ t.failed = s.failed := by
  obtain ⟨-, _, _, _, -, -, -, rfl⟩ := enter_eq_ok_iff.mp h
  exact ⟨rfl, rfl, rfl, rfl, rfl⟩

/-- **The registry, the options and the plan stay the same**, and no move but a failure fails. -/
theorem Follows.same {s t : Lowering α} (h : Follows t s) : t.registry = s.registry ∧
    t.options = s.options ∧ t.plan = s.plan ∧ t.failed = s.failed := by
  have hmoves := s.moves_step
  rcases h with hstep | ⟨i, hstep⟩
  · rw [hstep] at hmoves
    cases hmoves with
    | pop => exact ⟨rfl, rfl, rfl, rfl⟩
    | expandSilently _ _ _ ht _ =>
      obtain ⟨hregistry, hoptions, hplan, -, hfailed⟩ := enter_frame ht
      exact ⟨hregistry, hoptions, hplan, hfailed⟩
  · rw [hstep] at hmoves
    cases hmoves with
    | give => exact ⟨rfl, rfl, rfl, rfl⟩
    | expand _ _ _ ht _ =>
      obtain ⟨hregistry, hoptions, hplan, -, hfailed⟩ := enter_frame ht
      exact ⟨hregistry, hoptions, hplan, hfailed⟩

/-! ### The next instruction, and all of them -/

variable {s t : Lowering α} {i : Instruction α} {e : GateError α}

theorem next_of_finished (h : s.step = .finished) : s.next = (none, s) := by
  rw [next]
  split <;> simp_all

theorem next_of_silent (h : s.step = .silent t) : s.next = t.next := by
  rw [next]
  split <;> simp_all

theorem next_of_item (h : s.step = .item i t) : s.next = (some (.ok i), t) := by
  rw [next]
  split <;> simp_all

theorem next_of_failure (h : s.step = .failure e t) : s.next = (some (.error e), t) := by
  rw [next]
  split <;> simp_all

theorem drain_of_finished (h : s.step = .finished) : s.drain = ⟨[], none, s⟩ := by
  rw [drain]
  split <;> simp_all

theorem drain_of_silent (h : s.step = .silent t) : s.drain = t.drain := by
  rw [drain]
  split <;> simp_all

theorem drain_of_item (h : s.step = .item i t) :
    s.drain = { t.drain with instructions := i :: t.drain.instructions } := by
  rw [drain]
  split <;> simp_all

theorem drain_of_failure (h : s.step = .failure e t) : s.drain = ⟨[], some e, t⟩ := by
  rw [drain]
  split <;> simp_all

/-- **Nothing comes after an error.** -/
theorem next_of_failed (h : s.failed = true) : s.next = (none, s) := by
  refine next_of_finished ?_
  rw [step, if_pos h]

/-- The machine after a number of instructions have been taken. -/
def pulls : Nat → Lowering α → Lowering α
  | 0, s => s
  | n + 1, s => pulls n s.next.2

theorem pulls_add (s : Lowering α) (m n : Nat) : s.pulls (m + n) = (s.pulls m).pulls n := by
  induction m generalizing s with
  | zero => rw [Nat.zero_add, pulls]
  | succ m ih => rw [Nat.succ_add, pulls, pulls, ih]

/-- A machine at its end stays as it is. -/
theorem pulls_of_finished (h : s.step = .finished) (n : Nat) : s.pulls n = s := by
  induction n with
  | zero => rfl
  | succ n ih => rw [pulls, next_of_finished h, ih]

theorem next_pulls_of_silent (h : s.step = .silent t) (n : Nat) :
    (s.pulls n).next = (t.pulls n).next := by
  cases n with
  | zero => exact next_of_silent h
  | succ n => rw [pulls, pulls, next_of_silent h]

/-- **Induction along a run**: what holds of a machine if it holds of those that come after it in one
move. -/
theorem run_induction {P : Lowering α → Prop}
    (move : ∀ s, (∀ t, Follows t s → P t) → P s) (s : Lowering α) : P s :=
  follows_wf.induction s move

/-- **Induction along all instructions** of a run: one case for each outcome of its first move, with what
the run gives in that case. -/
theorem drain_induction {P : Lowering α → Prop}
    (finished : ∀ s, s.step = .finished → s.drain = ⟨[], none, s⟩ → P s)
    (silent : ∀ s t, s.step = .silent t → s.drain = t.drain → P t → P s)
    (item : ∀ s i t, s.step = .item i t →
      s.drain = { t.drain with instructions := i :: t.drain.instructions } → P t → P s)
    (failure : ∀ s e t, s.step = .failure e t → s.drain = ⟨[], some e, t⟩ → P s)
    (s : Lowering α) : P s := by
  induction s using run_induction with
  | move s ih =>
    cases hstep : s.step with
    | finished => exact finished s hstep (drain_of_finished hstep)
    | silent t => exact silent s t hstep (drain_of_silent hstep) (ih t (Or.inl hstep))
    | item i t => exact item s i t hstep (drain_of_item hstep) (ih t (Or.inr ⟨i, hstep⟩))
    | failure e t => exact failure s e t hstep (drain_of_failure hstep)

/-- **What is taken one by one**: these instructions, then nothing, with this ledger at the end. -/
structure Yields (s : Lowering α) (is : List (Instruction α)) (final : Ledger α) : Prop where
  given : ∀ n i, is[n]? = some i → (s.pulls n).next.1 = some (.ok i)
  ends : (s.pulls is.length).next.1 = none
  final : (s.pulls is.length).next.2.context = final

/-- The instructions taken one by one up to where no more comes are determined. -/
theorem given_unique {is is' : List (Instruction α)}
    (hgiven : ∀ n i, is[n]? = some i → (s.pulls n).next.1 = some (.ok i))
    (hends : ∀ i, (s.pulls is.length).next.1 ≠ some (.ok i))
    (hgiven' : ∀ n i, is'[n]? = some i → (s.pulls n).next.1 = some (.ok i))
    (hends' : ∀ i, (s.pulls is'.length).next.1 ≠ some (.ok i)) : is = is' := by
  have hlast : ∀ {xs ys : List (Instruction α)},
      (∀ i, (s.pulls xs.length).next.1 ≠ some (.ok i)) →
      (∀ n i, ys[n]? = some i → (s.pulls n).next.1 = some (.ok i)) → ys.length ≤ xs.length := by
    -- where the first list ends, the second cannot go on
    intro xs ys hx hy
    by_contra hlt
    exact hx _ (hy xs.length _ (List.getElem?_eq_getElem (Nat.lt_of_not_le hlt)))
  have hlength : is.length = is'.length := Nat.le_antisymm (hlast hends' hgiven) (hlast hends hgiven')
  refine List.ext_getElem hlength fun n hn hn' => ?_
  have hi := hgiven n _ (List.getElem?_eq_getElem hn)
  have hi' := hgiven' n _ (List.getElem?_eq_getElem hn')
  exact Except.ok.inj (Option.some.inj (hi.symm.trans hi'))

/-- What is taken one by one is determined. -/
theorem Yields.unique {is is' : List (Instruction α)} {final final' : Ledger α}
    (h : s.Yields is final) (h' : s.Yields is' final') : is = is' ∧ final = final' := by
  obtain rfl : is = is' :=
    given_unique h.given (fun i => by simp [h.ends]) h'.given fun i => by simp [h'.ends]
  exact ⟨rfl, h.final.symm.trans h'.final⟩

theorem next_pulls (s : Lowering α) (n : Nat) (i : Instruction α)
    (h : s.drain.instructions[n]? = some i) : (s.pulls n).next.1 = some (.ok i) := by
  induction s using run_induction generalizing n with
  | move s ih =>
    cases hstep : s.step with
    | finished =>
      rw [drain_of_finished hstep] at h
      cases h
    | silent t =>
      rw [drain_of_silent hstep] at h
      rw [next_pulls_of_silent hstep]
      exact ih t (Or.inl hstep) n h
    | item j t =>
      rw [drain_of_item hstep] at h
      -- the first instruction is taken now, the others from the machine after it
      cases n with
      | zero =>
        cases h
        rw [pulls, next_of_item hstep]
      | succ n =>
        rw [pulls, next_of_item hstep]
        exact ih t (Or.inr ⟨j, hstep⟩) n h
    | failure e t =>
      rw [drain_of_failure hstep] at h
      cases h

/-- What comes after all instructions is the error that ends the run, or nothing. -/
theorem next_pulls_length (s : Lowering α) :
    (s.pulls s.drain.instructions.length).next = (s.drain.error?.map .error, s.drain.state) := by
  induction s using run_induction with
  | move s ih =>
    cases hstep : s.step with
    | finished =>
      rw [drain_of_finished hstep]
      exact next_of_finished hstep
    | silent t =>
      rw [drain_of_silent hstep, next_pulls_of_silent hstep]
      exact ih t (Or.inl hstep)
    | item i t =>
      rw [drain_of_item hstep, List.length_cons, pulls, next_of_item hstep]
      exact ih t (Or.inr ⟨i, hstep⟩)
    | failure e t =>
      rw [drain_of_failure hstep]
      exact next_of_failure hstep

/-- **All instructions are those taken one by one**, where the run meets no error. -/
theorem yields_drain (h : s.drain.error? = none) :
    s.Yields s.drain.instructions s.drain.state.context where
  given n i hi := s.next_pulls n i hi
  ends := by
    rw [next_pulls_length, h]
    rfl
  final := by rw [next_pulls_length]

/-- A run in which no error is ever taken meets none. -/
theorem error?_drain (h : ∀ n e, (s.pulls n).next.1 ≠ some (.error e)) : s.drain.error? = none := by
  rw [Option.eq_none_iff_forall_ne_some]
  intro e he
  refine h s.drain.instructions.length e ?_
  rw [next_pulls_length, he]
  rfl

end Lowering

end PulseControl
