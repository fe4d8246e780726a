import PulseControl.Proofs.Lowering.Safety
import PulseControl.Schedule

/-!
# The records of a schedule agree

A schedule keeps its ledger, its buffers and its log side by side, and whatever is done to it, they say
the same: the ledger and the buffers are what the log makes of the first ledger and of silence. One
instruction keeps them in agreement; a call either applies its instructions one by one or leaves the
schedule alone; and calls that are run together are run in turn, up to the first that fails.

* `PulseControl.Schedule.Recorded` – the three records agree;
* `PulseControl.Schedule.Recorded.apply`, `PulseControl.Schedule.Recorded.performAll` – one instruction
  keeps them in agreement, and so does any history;
* `PulseControl.Schedule.InTurn` – calls that are run one after the other, none of which fails;
* `PulseControl.Schedule.runAll_eq_error` – where calls that are run together stop;
* `PulseControl.Schedule.records_agree` – all this for every history.
-/

namespace PulseControl

variable {α : Type}

/-- The pulses of some instructions on one channel, in order. -/
def Instruction.pulsesOn (c : Channel) (is : List (Instruction α)) : List (Waveform α) :=
  is.filterMap fun
    | .addWaveform channel waveform => if channel = c then some waveform else none
    | _ => none

namespace Instruction

theorem mem_pulsesOn {c : Channel} {is : List (Instruction α)} {w : Waveform α} :
    w ∈ pulsesOn c is ↔ .addWaveform c w ∈ is := by
  rw [pulsesOn, List.mem_filterMap]
  constructor
  · rintro ⟨i, hi, hw⟩
    split at hw
    · split at hw
      · next hc =>
        cases hc
        cases hw
        exact hi
      · cases hw
    · cases hw
  · intro h
    exact ⟨_, h, if_pos rfl⟩

theorem pulsesOn_append (c : Channel) (is js : List (Instruction α)) :
    pulsesOn c (is ++ js) = pulsesOn c is ++ pulsesOn c js :=
  List.filterMap_append

end Instruction

namespace Schedule

variable [Scalar α]

open Instruction (pulsesOn mem_pulsesOn pulsesOn_append)

/-- What some pulses add up to, from silence. -/
def accumulated (ws : List (Waveform α)) : Waveform α := ws.foldl (· + ·) .zero

/-- **The records agree**: ledger and buffers are what the log makes of a first ledger and of silence. -/
structure Recorded (seed : Ledger α) (s : Schedule α) : Prop where
  ledger : s.ledger = seed.applyAll s.log
  mem_buffers : ∀ c, c ∈ s.buffers ↔ ∃ w, .addWaveform c w ∈ s.log
  plays : ∀ c, (s.buffers[c]?).getD .zero = accumulated (pulsesOn c s.log)

variable {seed : Ledger α} {s s' : Schedule α}

theorem recorded_ofLedger (seed : Ledger α) : Recorded seed (ofLedger seed) where
  ledger := rfl
  mem_buffers c := by simp [ofLedger]
  plays c := by simp [ofLedger, pulsesOn, accumulated]

theorem log_apply (s : Schedule α) (i : Instruction α) : (s.apply i).log = s.log ++ [i] := by
  cases i <;> rfl

theorem ledger_apply (s : Schedule α) (i : Instruction α) :
    (s.apply i).ledger = s.ledger.apply i := by
  cases i <;> rfl

/-- **One instruction keeps the records in agreement.** -/
theorem Recorded.apply (h : Recorded seed s) (i : Instruction α) : Recorded seed (s.apply i) := by
  have hledger : (s.apply i).ledger = seed.applyAll (s.apply i).log := by
    rw [ledger_apply, log_apply, Ledger.applyAll_append, ← h.ledger]
    rfl
  -- an instruction that is no pulse is none on any channel
  have hquiet : (∀ c w, i ≠ .addWaveform c w) →
      (∀ c, (∃ w, .addWaveform c w ∈ s.log ++ [i]) ↔ ∃ w, .addWaveform c w ∈ s.log) ∧
      ∀ c, pulsesOn c (s.log ++ [i]) = pulsesOn c s.log := by
    intro hi
    refine ⟨fun c => ?_, fun c => ?_⟩
    · simp only [List.mem_append, List.mem_singleton, (hi c _).symm, or_false]
    · have hnone : pulsesOn c [i] = [] := by
        rw [List.eq_nil_iff_forall_not_mem]
        intro w hw
        exact hi c w (List.mem_singleton.mp (mem_pulsesOn.mp hw)).symm
      rw [pulsesOn_append, hnone, List.append_nil]
  cases i with
  | setState update =>
    obtain ⟨hmem, hpulses⟩ := hquiet (fun c w he => by cases he)
    exact ⟨hledger, fun c => (h.mem_buffers c).trans (hmem c).symm,
      fun c => (h.plays c).trans (congrArg _ (hpulses c).symm)⟩
  | expand call =>
    obtain ⟨hmem, hpulses⟩ := hquiet (fun c w he => by cases he)
    exact ⟨hledger, fun c => (h.mem_buffers c).trans (hmem c).symm,
      fun c => (h.plays c).trans (congrArg _ (hpulses c).symm)⟩
  | addWaveform channel waveform =>
    refine ⟨hledger, fun c => ?_, fun c => ?_⟩
    · simp only [Schedule.apply, Buffers.add, Std.ExtTreeMap.mem_insert, h.mem_buffers,
        List.mem_append, List.mem_singleton, Instruction.addWaveform.injEq,
        Std.LawfulEqOrd.compare_eq_iff_eq]
      constructor
      · rintro (rfl | ⟨w, hw⟩)
        · exact ⟨waveform, Or.inr ⟨rfl, rfl⟩⟩
        · exact ⟨w, Or.inl hw⟩
      · rintro ⟨w, hw | ⟨rfl, -⟩⟩
        · exact Or.inr ⟨w, hw⟩
        · exact Or.inl rfl
    · simp only [Schedule.apply, Buffers.add, Std.ExtTreeMap.getElem?_insert, pulsesOn_append,
        Std.LawfulEqOrd.compare_eq_iff_eq]
      by_cases hc : channel = c
      · have hone : pulsesOn c [.addWaveform channel waveform] = [waveform] := by
          simp [pulsesOn, hc]
        rw [if_pos hc, hone, hc, Option.getD_some, h.plays c, accumulated, accumulated,
          List.foldl_append]
        rfl
      · have hnone : pulsesOn c [.addWaveform channel waveform] = [] := by
          simp [pulsesOn, hc]
        rw [if_neg hc, hnone, List.append_nil]
        exact h.plays c

/-- Instructions keep the records in agreement. -/
theorem Recorded.applyAll (h : Recorded seed s) (is : List (Instruction α)) :
    Recorded seed (s.applyAll is) := by
  induction is generalizing s with
  | nil => exact h
  | cons i is ih => exact ih (h.apply i)

/-- The log takes every instruction in. -/
theorem log_applyAll (s : Schedule α) (is : List (Instruction α)) :
    (s.applyAll is).log = s.log ++ is := by
  induction is generalizing s with
  | nil => exact (List.append_nil _).symm
  | cons i is ih =>
    rw [Schedule.applyAll, List.foldl_cons, ← Schedule.applyAll, ih, log_apply, List.append_assoc]
    rfl

/-- The ledger takes every instruction in. -/
theorem ledger_applyAll (s : Schedule α) (is : List (Instruction α)) :
    (s.applyAll is).ledger = s.ledger.applyAll is := by
  induction is generalizing s with
  | nil => rfl
  | cons i is ih =>
    rw [Schedule.applyAll, List.foldl_cons, ← Schedule.applyAll, ih, ledger_apply]
    rfl

/-! ### Calls -/

section Run

variable {l : Lowerer α} {call : GateCall α} {e : GateError α} {first : Lowering α}

theorem run_of_lower_error (h : l.lower call s.ledger = .error e) :
    s.run l call = (.error e, s) := by
  simp only [run, h]

theorem run_of_drain_error (h : l.lower call s.ledger = .ok first)
    (he : first.drain.error? = some e) : s.run l call = (.error e, s) := by
  simp only [run, h, he]

theorem run_of_drain (h : l.lower call s.ledger = .ok first) (hok : first.drain.error? = none) :
    s.run l call =
      (.ok first.drain.instructions.length, s.applyAll first.drain.instructions) := by
  simp only [run, h, hok]

/-- **A call leaves the schedule alone or applies instructions**, as many as it reports. -/
theorem run_spec (s : Schedule α) (l : Lowerer α) (call : GateCall α) :
    (∃ e, s.run l call = (.error e, s)) ∨
      ∃ is : List (Instruction α), s.run l call = (.ok is.length, s.applyAll is) := by
  cases hlower : l.lower call s.ledger with
  | error e => exact Or.inl ⟨e, run_of_lower_error hlower⟩
  | ok first =>
    cases herror : first.drain.error? with
    | some e => exact Or.inl ⟨e, run_of_drain_error hlower herror⟩
    | none => exact Or.inr ⟨_, run_of_drain hlower herror⟩

/-- A call that fails leaves the schedule alone. -/
theorem eq_of_run_error (h : s.run l call = (.error e, s')) : s' = s := by
  rcases s.run_spec l call with ⟨e', hrun⟩ | ⟨is, hrun⟩
  · cases h.symm.trans hrun
    rfl
  · cases h.symm.trans hrun

/-- A call that succeeds extends the log by as many instructions as it reports. -/
theorem log_of_run_ok {n : Nat} (h : s.run l call = (.ok n, s')) :
    ∃ is, is.length = n ∧ s'.log = s.log ++ is := by
  rcases s.run_spec l call with ⟨e', hrun⟩ | ⟨is, hrun⟩
  · cases h.symm.trans hrun
  · cases h.symm.trans hrun
    exact ⟨is, rfl, s.log_applyAll is⟩

/-- A call that cannot be planned fails, with the error of its plan. -/
theorem run_of_plan_error (h : l.plan call = .error e) : s.run l call = (.error e, s) :=
  run_of_lower_error (Lowerer.lower_eq_error.mpr h)

/-- A call of a well-declared registry that can be planned succeeds. -/
theorem exists_run_ok (hdecl : l.registry.WellDeclared) {plan : Plan α}
    (h : l.plan call = .ok plan) (s : Schedule α) : ∃ n s', s.run l call = (.ok n, s') := by
  obtain ⟨first, hlower⟩ := Lowerer.exists_lower_ok h s.ledger
  have hok := ((Lowerer.lower_safe hdecl hlower).drain hdecl).1
  exact ⟨_, _, run_of_drain hlower hok⟩

/-! ### Calls that are run together -/

/-- **Calls run one after the other**, each of which succeeds: the number of their instructions and the
schedule after them. -/
inductive InTurn (l : Lowerer α) : Schedule α → List (GateCall α) → Nat → Schedule α → Prop where
  | nil (s : Schedule α) : InTurn l s [] 0 s
  | cons {s t u : Schedule α} {call : GateCall α} {calls : List (GateCall α)} {n m : Nat} :
    s.run l call = (.ok n, t) → InTurn l t calls m u → InTurn l s (call :: calls) (n + m) u

variable {calls : List (GateCall α)}

/-- **Calls that are run together succeed** where each succeeds in its turn. -/
theorem runAll_eq_ok {n : Nat} : s.runAll l calls = (.ok n, s') ↔ InTurn l s calls n s' := by
  constructor
  · intro h
    induction calls generalizing s n with
    | nil =>
      cases h
      exact .nil s'
    | cons call calls ih =>
      rw [runAll] at h
      cases hrun : s.run l call with
      | mk outcome t =>
        rw [hrun] at h
        cases outcome with
        | error e => cases h
        | ok m =>
          obtain ⟨hcount, hstate⟩ := Prod.mk.inj h
          obtain ⟨k, hk, rfl⟩ := Except.map_eq_ok.mp hcount
          exact .cons hrun (ih (Prod.ext hk hstate))
  · intro h
    induction h with
    | nil s => rfl
    | cons hrun _ ih =>
      rw [runAll, hrun]
      simp only [ih, Except.map]

/-- **Calls that are run together stop at the first that fails**, with its error, where the calls before
it have led. -/
theorem runAll_eq_error : s.runAll l calls = (.error e, s') ↔
    ∃ before call after n, calls = before ++ call :: after ∧ InTurn l s before n s' ∧
      s'.run l call = (.error e, s') := by
  constructor
  · intro h
    induction calls generalizing s with
    | nil => cases h
    | cons call calls ih =>
      rw [runAll] at h
      cases hrun : s.run l call with
      | mk outcome t =>
        rw [hrun] at h
        cases outcome with
        | error e' =>
          cases h
          obtain rfl := eq_of_run_error hrun
          exact ⟨[], call, calls, 0, rfl, .nil _, hrun⟩
        | ok m =>
          obtain ⟨hcount, hstate⟩ := Prod.mk.inj h
          have hrest : t.runAll l calls = (.error e, s') :=
            Prod.ext (Except.map_eq_error.mp hcount) hstate
          obtain ⟨before, failing, after, n, rfl, hturns, hfails⟩ := ih hrest
          exact ⟨call :: before, failing, after, _, rfl, .cons hrun hturns, hfails⟩
  · rintro ⟨before, call, after, n, rfl, hturns, hfails⟩
    induction hturns with
    | nil s => rw [List.nil_append, runAll, hfails]
    | cons hrun _ ih =>
      rw [List.cons_append, runAll, hrun]
      simp only [ih hfails, Except.map]

/-- A call keeps the records in agreement, whether it succeeds or not. -/
theorem Recorded.run (h : Recorded seed s) (l : Lowerer α) (call : GateCall α) :
    Recorded seed (s.run l call).2 := by
  rcases s.run_spec l call with ⟨e, hrun⟩ | ⟨is, hrun⟩
  · rw [hrun]
    exact h
  · rw [hrun]
    exact h.applyAll is

theorem Recorded.inTurn {n : Nat} (h : Recorded seed s) (hturns : InTurn l s calls n s') :
    Recorded seed s' := by
  induction hturns with
  | nil s => exact h
  | @cons s t u call calls n m hrun _ ih =>
    refine ih ?_
    have hone := h.run l call
    rwa [hrun] at hone

/-- So do calls that are run together. -/
theorem Recorded.runAll (h : Recorded seed s) (l : Lowerer α) (calls : List (GateCall α)) :
    Recorded seed (s.runAll l calls).2 := by
  cases hrun : s.runAll l calls with
  | mk outcome s' =>
    cases outcome with
    | ok n => exact h.inTurn (runAll_eq_ok.mp hrun)
    | error e =>
      obtain ⟨before, call, after, n, -, hturns, -⟩ := runAll_eq_error.mp hrun
      exact h.inTurn hturns

end Run

/-! ### Histories -/

/-- What can be done to a schedule. -/
inductive Operation (α : Type) where
  | apply (i : Instruction α)
  | run (l : Lowerer α) (call : GateCall α)
  | runAll (l : Lowerer α) (calls : List (GateCall α))

/-- The schedule after an operation, whether it succeeds or not. -/
def perform (s : Schedule α) : Operation α → Schedule α
  | .apply i => s.apply i
  | .run l call => (s.run l call).2
  | .runAll l calls => (s.runAll l calls).2

/-- The schedule after operations one after the other. -/
def performAll (s : Schedule α) (ops : List (Operation α)) : Schedule α := ops.foldl perform s

/-- **Every history keeps the records in agreement.** -/
theorem Recorded.performAll (h : Recorded seed s) (ops : List (Operation α)) :
    Recorded seed (s.performAll ops) := by
  induction ops generalizing s with
  | nil => exact h
  | cons op ops ih =>
    refine ih ?_
    cases op with
    | apply i => exact h.apply i
    | run l call => exact h.run l call
    | runAll l calls => exact h.runAll l calls

/-- **After every history the records agree**, and every call leaves its trace in all of them or in
none. The ledger is the first one with the instructions of the log applied; there is a buffer for exactly
the channels that the log has a pulse on, with the sum of these pulses; a call that fails changes
nothing, and one that succeeds extends the log by as many instructions as it reports; and calls that are
run together and fail leave what the calls before the first failing one lead to. -/
theorem records_agree (seed : Ledger α) (ops : List (Operation α)) (s : Schedule α)
    (hs : s = (ofLedger seed).performAll ops) :
    s.ledger = seed.applyAll s.log ∧
    (∀ c, c ∈ s.buffers ↔ ∃ w, .addWaveform c w ∈ s.log) ∧
    (∀ c w, s.buffers[c]? = some w → w = (pulsesOn c s.log).foldl (· + ·) .zero) ∧
    (∀ l call e s', s.run l call = (.error e, s') → s' = s) ∧
    (∀ l call n s', s.run l call = (.ok n, s') → ∃ is, is.length = n ∧ s'.log = s.log ++ is) ∧
    (∀ l calls e s', s.runAll l calls = (.error e, s') →
      ∃ before call after n, calls = before ++ call :: after ∧ InTurn l s before n s' ∧
        s'.run l call = (.error e, s')) := by
  have h : Recorded seed s := hs ▸ (recorded_ofLedger seed).performAll ops
  refine ⟨h.ledger, h.mem_buffers, fun c w hw => ?_, fun l call e s' => eq_of_run_error,
    fun l call n s' => log_of_run_ok, fun l calls e s' => runAll_eq_error.mp⟩
  have hplays := h.plays c
  rwa [hw, Option.getD_some] at hplays

/-- A gate that the library does not have. -/
def stranger : GateCall Float := ⟨.plain "nowhere", ["Q0"], []⟩

/-- A pulse, a flip and a gate that is not there leave the records in agreement, and three calls of which
the second fails leave what the first leads to. -/
theorem flips_around_stranger : ∃ s w,
    s = (ofLedger ∅).performAll [.apply (.addWaveform (.drive "Q0") (.const 1)),
      .run StandardGates.floatLowerer stranger] ∧
    (s.buffers[Channel.drive "Q0"]? = some w ∧
      w = (pulsesOn (.drive "Q0") s.log).foldl (· + ·) .zero) ∧
    (∃ e s', s.run StandardGates.floatLowerer stranger = (.error e, s') ∧ s' = s) ∧
    (∃ n s', s.run StandardGates.floatLowerer StandardGates.controlledFlip = (.ok n, s') ∧
      ∃ is, is.length = n ∧ s'.log = s.log ++ is) ∧
    ∃ e s', s.runAll StandardGates.floatLowerer
        [StandardGates.controlledFlip, stranger, StandardGates.controlledFlip] = (.error e, s') ∧
      ∃ before n, InTurn StandardGates.floatLowerer s before n s' := by
  have hfails : (StandardGates.floatLowerer.plan stranger).isOk = false := by decide +kernel
  have hdecl : StandardGates.floatLowerer.registry.WellDeclared :=
    StandardGates.extended_floatRegistry.wellDeclared
  cases he : StandardGates.floatLowerer.plan stranger with
  | ok plan =>
    rw [he] at hfails
    cases hfails
  | error e =>
    obtain ⟨plan, hplan⟩ := StandardGates.exists_plan_controlledFlip
    obtain ⟨s, hs⟩ : ∃ s, s = (ofLedger ∅).performAll
        [.apply (.addWaveform (.drive "Q0") (.const 1)),
          .run StandardGates.floatLowerer stranger] := ⟨_, rfl⟩
    obtain ⟨-, hmem, hplays, herror, hok, hall⟩ := records_agree ∅ _ s hs
    have hpulse : Channel.drive "Q0" ∈ s.buffers := by
      refine (hmem _).mpr ⟨.const 1, ?_⟩
      rw [hs]
      simp only [performAll, List.foldl_cons, List.foldl_nil, perform, run_of_plan_error he, log_apply]
      exact List.mem_singleton_self _
    obtain ⟨w, hw⟩ : ∃ w, s.buffers[Channel.drive "Q0"]? = some w :=
      ⟨_, Std.ExtTreeMap.getElem?_eq_some_getElem hpulse⟩
    obtain ⟨n, t, hflip⟩ := exists_run_ok hdecl hplan s
    have hrun : s.runAll StandardGates.floatLowerer
        [StandardGates.controlledFlip, stranger, StandardGates.controlledFlip] = (.error e, t) :=
      runAll_eq_error.mpr ⟨[_], stranger, [_], _, rfl, .cons hflip (.nil t), run_of_plan_error he⟩
    obtain ⟨before, call, after, k, -, hturns, -⟩ := hall _ _ _ _ hrun
    exact ⟨s, w, hs, ⟨hw, hplays _ _ hw⟩, ⟨e, s, run_of_plan_error he,
      herror _ _ _ _ (run_of_plan_error he)⟩, ⟨n, t, hflip, hok _ _ _ _ hflip⟩, e, t, hrun, before, k,
      hturns⟩

end Schedule

end PulseControl
