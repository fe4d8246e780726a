import PulseControl.Proofs.Lowering.Undeclared

/-!
# Every pull comes back, and every run ends

The next instruction is looked for in a loop. A turn of it computes a stage that looks at the ledger,
takes a gate that has nothing left off the stack, or puts a gate on the stack whose marker does not
count. None of these is bounded by what was there before: the instructions of a stage are not known
until it is reached, and a marker may name any gate of the plan, even one that it stands in. What carries
the argument is the depth limit, under which stacks descend.

* `PulseControl.Lowering.Turn` – one turn;
* `PulseControl.Lowering.exists_turns` – after some turns the machine answers, and it has no other choice;
* `PulseControl.Lowering.Fits.pulls` – no stack is higher than the limit;
* `PulseControl.Lowerer.lowering_ends` – all this for the run of a call.
-/

namespace PulseControl

variable {α : Type}

namespace Synthesis

/-- The instruction that comes next without a look at the ledger, and what is left after it. -/
def atHand? (s : Synthesis α) : Option (Instruction α × Synthesis α) :=
  match s.pending, s.stages with
  | i :: is, stages => some (i, ⟨stages, is⟩)
  | [], .emit i :: stages => some (i, ⟨stages, []⟩)
  | [], _ => none

variable {s rest : Synthesis α} {i : Instruction α}

theorem next_of_atHand? (h : s.atHand? = some (i, rest)) (l : Ledger α) :
    s.next l = some (i, rest) := by
  obtain ⟨stages, pending⟩ := s
  cases pending with
  | cons j js => exact h
  | nil =>
    cases stages with
    | nil => cases h
    | cons stage stages =>
      cases stage with
      | emit j => exact h
      | deferred f => cases h

/-- A synthesis with nothing at hand has nothing left, or its first stage looks at the ledger. -/
theorem of_atHand?_eq_none (h : s.atHand? = none) :
    s = ∅ ∨ ∃ f stages, s = ⟨.deferred f :: stages, []⟩ := by
  obtain ⟨stages, pending⟩ := s
  cases pending with
  | cons j js => cases h
  | nil =>
    cases stages with
    | nil => exact Or.inl rfl
    | cons stage stages =>
      cases stage with
      | emit j => cases h
      | deferred f => exact Or.inr ⟨f, stages, rfl⟩

/-- A stage that looks at the ledger gives what it computes there. -/
theorem next_deferred (f : Ledger α → List (Instruction α)) (stages : List (Stage α))
    (l : Ledger α) : (⟨.deferred f :: stages, []⟩ : Synthesis α).next l =
      (⟨stages, f l⟩ : Synthesis α).next l := by
  simp only [next, nextOf]
  cases f l <;> rfl

end Synthesis

namespace Lowering

variable [Scalar α]

/-! ### The turns of a pull -/

/-- **One turn** of the loop that looks for the next instruction. -/
inductive Turn (s : Lowering α) : Lowering α → Prop where
  /-- The first stage of the topmost gate looks at the ledger. -/
  | compute {key : GateKey} {f : Ledger α → List (Instruction α)} {stages : List (Stage α)}
    {outer : List (Frame α)} : s.failed = false →
    s.frames = ⟨key, ⟨.deferred f :: stages, []⟩⟩ :: outer →
    Turn s (s.use key ⟨stages, f s.context⟩ outer)
  /-- The topmost gate has nothing left. -/
  | pop {key : GateKey} {outer : List (Frame α)} : s.failed = false →
    s.frames = ⟨key, ∅⟩ :: outer → Turn s { s with frames := outer }
  /-- A marker that does not count is at hand, and the gate that it names is put on the stack. -/
  | skip {frame : Frame α} {outer : List (Frame α)} {call : GateCall α} {rest : Synthesis α}
    {t : Lowering α} : s.failed = false → s.frames = frame :: outer →
    frame.synthesis.atHand? = some (.expand call, rest) →
    (s.use frame.key rest outer).enter call frame.key = .ok t →
    s.options.emitExpansions = false → Turn s t

/-- So many turns lead from one machine to another. -/
inductive Turns : Lowering α → Nat → Lowering α → Prop where
  | refl (s : Lowering α) : Turns s 0 s
  | turn {s t u : Lowering α} {n : Nat} : Turn s t → Turns t n u → Turns s (n + 1) u

/-- **The machine answers at once**: its first move is not a silent one. -/
inductive Answers (s : Lowering α) :
    Option (Except (GateError α) (Instruction α)) × Lowering α → Prop where
  | nothing : s.step = .finished → Answers s (none, s)
  | item {i : Instruction α} {t : Lowering α} : s.step = .item i t → Answers s (some (.ok i), t)
  | error {e : GateError α} {t : Lowering α} :
    s.step = .failure e t → Answers s (some (.error e), t)

variable {s t u : Lowering α}

/-- There is at most one turn to take. -/
theorem Turn.unique (h : Turn s t) (h' : Turn s u) : t = u := by
  cases h with
  | compute _ hframes =>
    cases h' with
    | compute _ hframes' =>
      cases hframes.symm.trans hframes'
      rfl
    | pop _ hframes' => cases hframes.symm.trans hframes'
    | skip _ hframes' hhand =>
      cases hframes.symm.trans hframes'
      cases hhand
  | pop _ hframes =>
    cases h' with
    | compute _ hframes' => cases hframes.symm.trans hframes'
    | pop _ hframes' =>
      cases hframes.symm.trans hframes'
      rfl
    | skip _ hframes' hhand =>
      cases hframes.symm.trans hframes'
      cases hhand
  | skip _ hframes hhand ht =>
    cases h' with
    | compute _ hframes' =>
      cases hframes.symm.trans hframes'
      cases hhand
    | pop _ hframes' =>
      cases hframes.symm.trans hframes'
      cases hhand
    | skip _ hframes' hhand' ht' =>
      cases hframes.symm.trans hframes'
      cases hhand.symm.trans hhand'
      exact Except.ok.inj (ht.symm.trans ht')

/-- **Every turn descends**, under the same options. -/
theorem Turn.descends (h : Turn s t) : t.options = s.options ∧
    Descends s.options.maxDepth t.frames s.frames := by
  cases h with
  | compute _ hframes =>
    rw [hframes]
    exact ⟨rfl, .use _ _ (Prod.Lex.left _ _ (Nat.lt_succ_self _))⟩
  | pop _ hframes =>
    rw [hframes]
    exact ⟨rfl, .pop _ _⟩
  | @skip frame outer call rest _ _ hframes hhand ht =>
    obtain ⟨hroom, inner, rfl⟩ := enter_eq_ok ht
    have hused := Synthesis.measure_next (Synthesis.next_of_atHand? hhand s.context)
    rw [hframes]
    exact ⟨rfl, .push frame.key inner outer hused hroom⟩

theorem turn_wf : WellFounded fun t s : Lowering α => Turn s t := by
  refine wf_of_descends fun h => ?_
  obtain ⟨hoptions, hdesc⟩ := h.descends
  exact ⟨congrArg _ hoptions, hdesc⟩

/-- **A turn does not change the answer.** -/
theorem Turn.next_eq (h : Turn s t) : s.next = t.next := by
  cases h with
  | @compute key f stages outer hrunning hframes =>
    -- both machines make the same move, and neither has come to its end
    have hstep : s.step = (s.use key ⟨stages, f s.context⟩ outer).step := by
      simp only [step, use, hrunning, hframes, Synthesis.next_deferred]
    cases hmove : s.step with
    | finished =>
      cases moves_of_step hmove with
      | failed hfailed => cases hfailed.symm.trans hrunning
      | done _ hempty => cases hempty.symm.trans hframes
    | silent u => rw [next_of_silent hmove, next_of_silent (hstep.symm.trans hmove)]
    | item i u => rw [next_of_item hmove, next_of_item (hstep.symm.trans hmove)]
    | failure e u => rw [next_of_failure hmove, next_of_failure (hstep.symm.trans hmove)]
  | pop hrunning hframes =>
    refine next_of_silent ?_
    simp only [step, hrunning, hframes, Bool.false_eq_true, if_false]
    rfl
  | @skip frame outer call rest _ hrunning hframes hhand ht hhidden =>
    have hnext := Synthesis.next_of_atHand? hhand s.context
    refine next_of_silent ?_
    simp only [use, hrunning] at ht
    simp only [step, hrunning, hframes, hnext, ht, hhidden, Bool.false_eq_true, if_false]

/-- **A machine with no turn to take answers at once.** -/
theorem answers_of_no_turn (h : ∀ t, ¬Turn s t) : s.Answers s.next := by
  cases hstep : s.step with
  | finished =>
    rw [next_of_finished hstep]
    exact .nothing hstep
  | item i t =>
    rw [next_of_item hstep]
    exact .item hstep
  | failure e t =>
    rw [next_of_failure hstep]
    exact .error hstep
  | silent t =>
    -- a silent move begins with a turn: the first stage is computed, or else it is the turn itself
    exfalso
    have hmoves := moves_of_step hstep
    have hcompute : ∀ {frame : Frame α} {outer : List (Frame α)}, s.failed = false →
        s.frames = frame :: outer → frame.synthesis.atHand? = none → False := by
      rintro ⟨key, synthesis⟩ outer hrunning hframes hnone
      rcases Synthesis.of_atHand?_eq_none hnone with rfl | ⟨f, stages, rfl⟩
      · exact h _ (.pop hrunning hframes)
      · exact h _ (.compute hrunning hframes)
    cases hmoves with
    | @pop frame outer hrunning hframes hnext =>
      cases hhand : frame.synthesis.atHand? with
      | none => exact hcompute hrunning hframes hhand
      | some found => cases hnext.symm.trans (Synthesis.next_of_atHand? hhand s.context)
    | @expandSilently frame outer call rest t hrunning hframes hnext ht hhidden =>
      cases hhand : frame.synthesis.atHand? with
      | none => exact hcompute hrunning hframes hhand
      | some found =>
        obtain ⟨i, left⟩ := found
        cases hnext.symm.trans (Synthesis.next_of_atHand? hhand s.context)
        exact h _ (.skip hrunning hframes hhand ht hhidden)

/-- **Every pull comes back**: some turns lead to a machine that takes no more of them and answers. -/
theorem exists_turns (s : Lowering α) :
    ∃ n t, Turns s n t ∧ (∀ u, ¬Turn t u) ∧ t.Answers s.next := by
  refine turn_wf.induction (C := fun s => ∃ n t, Turns s n t ∧ (∀ u, ¬Turn t u) ∧ t.Answers s.next)
    s fun s ih => ?_
  by_cases h : ∃ t, Turn s t
  · obtain ⟨t, ht⟩ := h
    obtain ⟨n, u, hturns, hrest, hanswers⟩ := ih t ht
    exact ⟨n + 1, u, .turn ht hturns, hrest, ht.next_eq ▸ hanswers⟩
  · have hrest : ∀ t, ¬Turn s t := fun t ht => h ⟨t, ht⟩
    exact ⟨0, s, .refl s, hrest, answers_of_no_turn hrest⟩

/-- No more turns can be taken than those that lead to a machine without turns. -/
theorem Turns.le {n m : Nat} (h : Turns s n t) (hrest : ∀ u, ¬Turn t u) (h' : Turns s m u) :
    m ≤ n := by
  induction h generalizing m with
  | refl s =>
    cases h' with
    | refl => exact Nat.le_refl 0
    | turn ht _ => exact absurd ht (hrest _)
  | turn ht _ ih =>
    cases h' with
    | refl => exact Nat.zero_le _
    | turn ht' hturns' =>
      cases ht.unique ht'
      exact Nat.succ_le_succ (ih hrest hturns')

/-! ### The height of the stack -/

omit [Scalar α] in
theorem Descends.length_le {limit : Nat} {frames frames' : List (Frame α)}
    (h : Descends limit frames' frames) (hle : frames.length ≤ limit) : frames'.length ≤ limit := by
  cases h with
  | pop frame outer => exact Nat.le_of_succ_le hle
  | use key outer => exact hle
  | push key inner outer _ hroom => exact hroom

/-- The stack is no higher than the limit. -/
def Fits (limit : Nat) (s : Lowering α) : Prop :=
  s.options.maxDepth = limit ∧ s.depth ≤ limit

variable {limit : Nat}

theorem Fits.turn (h : Fits limit s) (ht : Turn s t) : Fits limit t := by
  obtain ⟨hlimit, hle⟩ := h
  obtain ⟨hoptions, hdesc⟩ := ht.descends
  exact ⟨(congrArg _ hoptions).trans hlimit, (hlimit ▸ hdesc).length_le hle⟩

theorem Fits.turns {n : Nat} (h : Fits limit s) (ht : Turns s n t) : Fits limit t := by
  induction ht with
  | refl s => exact h
  | turn hfirst _ ih => exact ih (h.turn hfirst)

/-- An answer leaves a stack that fits. -/
theorem Fits.answers (h : Fits limit s)
    {answer : Option (Except (GateError α) (Instruction α)) × Lowering α}
    (ha : s.Answers answer) : Fits limit answer.2 := by
  cases ha with
  | nothing => exact h
  | item hstep =>
    obtain ⟨hlimit, hdesc⟩ := descends_of_follows (Or.inr ⟨_, hstep⟩)
    exact ⟨hlimit.trans h.1, (h.1 ▸ hdesc).length_le h.2⟩
  | error hstep =>
    cases moves_of_step hstep with
    | refuse _ hframes _ _ =>
      have hle := h.2
      rw [depth, hframes] at hle
      exact ⟨h.1, hle⟩

/-- **No pull makes the stack higher than the limit.** -/
theorem Fits.pulls (h : Fits limit s) (k : Nat) : Fits limit (s.pulls k) := by
  induction k generalizing s with
  | zero => exact h
  | succ k ih =>
    obtain ⟨n, t, hturns, -, hanswers⟩ := s.exists_turns
    exact ih ((h.turns hturns).answers hanswers)

/-! ### The end of a run -/

/-- The machine at the end of a run has made its last move. -/
theorem step_drain_state (s : Lowering α) : s.drain.state.step = .finished := by
  induction s using drain_induction with
  | finished s hstep hdrain =>
    rw [hdrain]
    exact hstep
  | silent s t _ hdrain ih =>
    rw [hdrain]
    exact ih
  | item s i t _ hdrain ih =>
    rw [hdrain]
    exact ih
  | failure s e t hstep hdrain =>
    rw [hdrain]
    cases moves_of_step hstep with
    | refuse => rfl

/-- The machine stays as it is after all instructions and the error, if there is one. -/
theorem pulls_of_gt (s : Lowering α) {k : Nat} (h : s.drain.instructions.length < k) :
    s.pulls k = s.drain.state := by
  obtain ⟨n, rfl⟩ := Nat.exists_eq_add_of_lt h
  rw [Nat.add_assoc, pulls_add, pulls, next_pulls_length, pulls_of_finished s.step_drain_state]

/-- **Nothing comes any more** after all instructions and the error, if there is one. -/
theorem next_pulls_of_gt (s : Lowering α) {k : Nat} (h : s.drain.instructions.length < k) :
    (s.pulls k).next = (none, s.drain.state) := by
  rw [s.pulls_of_gt h, next_of_finished s.step_drain_state]

end Lowering

namespace Lowerer

variable [Scalar α] {l : Lowerer α} {call : GateCall α} {seed : Ledger α} {first : Lowering α}

/-- A call under way begins with one gate on its stack. -/
theorem fits_of_lower (h : l.lower call seed = .ok first) :
    Lowering.Fits l.options.maxDepth first := by
  obtain ⟨plan, -, henter⟩ := lower_eq_ok.mp h
  obtain ⟨hroom, _, _, _, -, -, -, rfl⟩ := Lowering.enter_eq_ok_iff.mp henter
  exact ⟨rfl, hroom⟩

/-- **The run of a call ends**, whatever its gates expand to. After any number of pulls, and in the
middle of one, no more gates are on the stack than the limit allows; every pull answers after some turns,
and it cannot take more; and after some pulls nothing comes any more. -/
theorem lowering_ends (h : l.lower call seed = .ok first) :
    (∀ k n t, (first.pulls k).Turns n t → t.depth ≤ l.options.maxDepth) ∧
    (∀ k, ∃ n t, (first.pulls k).Turns n t ∧ t.Answers (first.pulls k).next ∧
      ∀ m u, (first.pulls k).Turns m u → m ≤ n) ∧
    ∃ n, ∀ k, n ≤ k → (first.pulls k).next.1 = none := by
  have hfits := fits_of_lower h
  refine ⟨fun k n t ht => ((hfits.pulls k).turns ht).2, fun k => ?_,
    first.drain.instructions.length + 1, fun k hk => ?_⟩
  · obtain ⟨n, t, hturns, hrest, hanswers⟩ := (first.pulls k).exists_turns
    exact ⟨n, t, hturns, hanswers, fun m u hu => hturns.le hrest hu⟩
  · rw [first.next_pulls_of_gt hk]

/-! ### A gate that expands to itself -/

/-- A gate that expands to itself, which no declaration forbids, since it declares nothing. -/
def selfGates : List (GateKey × GateDefinition Float) :=
  [(.plain "self", .primitive [] (undeclaring (.plain "self")))]

/-- The registry of this gate alone, with markers that do not count. -/
def selfLowerer : Lowerer Float where
  registry := (((∅ : Registry.Builder Float).attemptAll selfGates).build).toOption.getD ⟨∅, []⟩
  calibration := fun _ => ∅
  options := { maxDepth := 5, emitExpansions := false }

/-- The run of the gate that expands to itself ends, with at most five gates on the stack. -/
theorem self_expansion_ends :
    ((∅ : Registry.Builder Float).attemptAll selfGates).build = .ok selfLowerer.registry ∧
    ∃ first, selfLowerer.lower (onQubit "self") ∅ = .ok first ∧
      (∀ k, (first.pulls k).depth ≤ 5) ∧ ∃ n, ∀ k, n ≤ k → (first.pulls k).next.1 = none := by
  have hok : (selfLowerer.lower (onQubit "self") ∅).isOk = true := by decide +kernel
  obtain ⟨first, hfirst⟩ := Except.isOk_eq_true.mp hok
  obtain ⟨hdepth, -, hend⟩ := lowering_ends hfirst
  exact ⟨rfl, first, hfirst, fun k => hdepth k 0 _ (.refl _), hend⟩

end Lowerer

end PulseControl
