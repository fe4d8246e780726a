import PulseControl.Lowering.Plan

/-!
# Expanding a planned call

A lowering under way is a stack of gates, each with what is left of its synthesis, and the ledger as of
the last instruction. The topmost gate gives the next instruction; a marker puts the gate that it names
on the stack, and a gate that has no more to give is taken off.

* `PulseControl.Lowering.step` – one move of the machine, which may give nothing;
* `PulseControl.Lowering.follows_wf` – every run of the machine ends, because the stack never grows above
  the depth limit and every move uses up a synthesis further down than those it adds;
* `PulseControl.Lowering.next` – the next instruction; `PulseControl.Lowering.drain` – all of them;
* `PulseControl.Lowerer.lower`, `PulseControl.Lowerer.lowerInto`, `PulseControl.Lowerer.lowerOnto` – a
  call lowered.
-/

namespace PulseControl

/-- A gate on the stack. -/
structure Frame (α : Type) where
  key : GateKey
  synthesis : Synthesis α

/-- A lowering under way. -/
structure Lowering (α : Type) where
  registry : Registry α
  options : LoweringOptions
  /-- The parameters of every slot of the call. -/
  plan : Plan α
  /-- The ledger as of the last instruction. -/
  context : Ledger α
  /-- The gates under expansion, the innermost first. -/
  frames : List (Frame α)
  /-- Whether an error has been met, after which nothing more comes. -/
  failed : Bool

/-- The outcome of one move. -/
inductive Move (α : Type) where
  /-- Nothing is left. -/
  | finished
  /-- The machine has moved on without giving anything. -/
  | silent (state : Lowering α)
  /-- An instruction, and the machine after it. -/
  | item (instruction : Instruction α) (state : Lowering α)
  /-- An error, and the machine after it. -/
  | failure (error : GateError α) (state : Lowering α)

namespace Lowering

variable {α : Type}

/-- How deep gates are nested. -/
def depth (s : Lowering α) : Nat := s.frames.length

/-- Whether everything has been produced without an error. -/
def isComplete (s : Lowering α) : Bool := !s.failed && s.frames.isEmpty

/-- The final ledger, once everything has been produced without an error. -/
def intoContext? (s : Lowering α) : Option (Ledger α) :=
  if s.isComplete then some s.context else none

variable [Scalar α]

/-- Puts the gate of a call on the stack, for a call that stands in the gate `parent`. The parameters
must have been planned. -/
def enter (s : Lowering α) (call : GateCall α) (parent : GateKey) :
    Except (GateError α) (Lowering α) :=
  if s.options.maxDepth ≤ s.frames.length then
    .error (.expansionDepth call.key s.options.maxDepth)
  else
    match s.plan[call.slot]? with
    | none => .error (.undeclaredExpansion parent call.key call.targets)
    | some params => do
      discard (s.registry.checkCall call)
      let synthesis ← s.registry.synthesize call params
      return { s with frames := ⟨call.key, synthesis⟩ :: s.frames }

/-- **One move.** A marker counts as an instruction only where the options say so. -/
def step (s : Lowering α) : Move α :=
  if s.failed then .finished
  else
    match s.frames with
    | [] => .finished
    | frame :: outer =>
      match frame.synthesis.next s.context with
      | none => .silent { s with frames := outer }
      | some (.expand call, rest) =>
        let s' := { s with frames := ⟨frame.key, rest⟩ :: outer }
        match s'.enter call frame.key with
        | .error e => .failure e { s' with failed := true }
        | .ok inner => if s.options.emitExpansions then .item (.expand call) inner else .silent inner
      | some (i, rest) =>
        .item i { s with frames := ⟨frame.key, rest⟩ :: outer, context := s.context.apply i }

/-! ### Every run ends -/

/-- The machine `t` comes after the machine `s` in one move. -/
def Follows (t s : Lowering α) : Prop := s.step = .silent t ∨ ∃ i, s.step = .item i t

/-- What a move does to the stack: it takes the topmost gate off, or uses up some of its synthesis, and
in the second case it may put one more gate on top if there is room. -/
inductive Descends (limit : Nat) : List (Frame α) → List (Frame α) → Prop where
  | pop (frame : Frame α) (outer : List (Frame α)) : Descends limit outer (frame :: outer)
  | use (key : GateKey) {rest synthesis : Synthesis α} (outer : List (Frame α)) :
    Prod.Lex (· < ·) (· < ·) rest.measure synthesis.measure →
    Descends limit (⟨key, rest⟩ :: outer) (⟨key, synthesis⟩ :: outer)
  | push (key : GateKey) {rest synthesis : Synthesis α} (inner : Frame α)
    (outer : List (Frame α)) :
    Prod.Lex (· < ·) (· < ·) rest.measure synthesis.measure → outer.length + 1 < limit →
    Descends limit (inner :: ⟨key, rest⟩ :: outer) (⟨key, synthesis⟩ :: outer)

/-- Entering a gate puts it on the stack, below the depth limit, and changes nothing else. -/
theorem enter_eq_ok {s t : Lowering α} {call : GateCall α} {parent : GateKey}
    (h : s.enter call parent = .ok t) :
    s.frames.length < s.options.maxDepth ∧
      ∃ frame, t = { s with frames := frame :: s.frames } := by
  unfold enter at h
  split at h
  · cases h
  · next hroom =>
    split at h
    · cases h
    · next params _ =>
      cases hc : s.registry.checkCall call with
      | error e => simp [hc, discard, Functor.mapConst, Except.map, bind, Except.bind] at h
      | ok definition =>
        cases hs : s.registry.synthesize call params with
        | error e => simp [hc, hs, discard, Functor.mapConst, Except.map, bind, Except.bind] at h
        | ok synthesis =>
          simp [hc, hs, discard, Functor.mapConst, Except.map, bind, Except.bind, pure,
            Except.pure] at h
          exact ⟨Nat.lt_of_not_le hroom, ⟨call.key, synthesis⟩, h.symm⟩

/-- Every move descends, under the same depth limit. -/
theorem descends_of_follows {s t : Lowering α} (h : Follows t s) :
    t.options.maxDepth = s.options.maxDepth ∧
      Descends s.options.maxDepth t.frames s.frames := by
  obtain ⟨registry, options, plan, context, frames, failed⟩ := s
  cases failed with
  | true => rcases h with h | ⟨i, h⟩ <;> cases h
  | false =>
    cases frames with
    | nil => rcases h with h | ⟨i, h⟩ <;> cases h
    | cons frame outer =>
      obtain ⟨key, synthesis⟩ := frame
      simp only [Follows, step, Bool.false_eq_true, ↓reduceIte] at h
      cases hn : synthesis.next context with
      | none =>
        simp only [hn] at h
        rcases h with h | ⟨i, h⟩
        · cases h
          exact ⟨rfl, .pop _ _⟩
        · cases h
      | some produced =>
        obtain ⟨i, rest⟩ := produced
        have hm := Synthesis.measure_next hn
        simp only [hn] at h
        cases i with
        | expand call =>
          simp only at h
          generalize he : enter _ call key = entered at h
          cases entered with
          | error e => rcases h with h | ⟨i, h⟩ <;> cases h
          | ok inner =>
            obtain ⟨hroom, pushed, rfl⟩ := enter_eq_ok he
            simp only at h
            split at h
            · rcases h with h | ⟨i, h⟩
              · cases h
              · cases h
                exact ⟨rfl, .push key pushed outer hm hroom⟩
            · rcases h with h | ⟨i, h⟩
              · cases h
                exact ⟨rfl, .push key pushed outer hm hroom⟩
              · cases h
        | addWaveform channel waveform =>
          rcases h with h | ⟨i, h⟩
          · cases h
          · cases h
            exact ⟨rfl, .use key outer hm⟩
        | setState update =>
          rcases h with h | ⟨i, h⟩
          · cases h
          · cases h
            exact ⟨rfl, .use key outer hm⟩

omit [Scalar α] in
/-- A stack is accessible if the stack below its topmost gate is and little enough room is left on it. -/
theorem acc_cons {limit : Nat} (room : Nat) (outer : List (Frame α))
    (hroom : limit ≤ outer.length + 1 + room) (houter : Acc (Descends limit) outer)
    (key : GateKey) (synthesis : Synthesis α) :
    Acc (Descends limit) (⟨key, synthesis⟩ :: outer) := by
  induction room generalizing outer key synthesis with
  | zero =>
    induction hm : synthesis.measure using (Prod.lex Nat.lt_wfRel Nat.lt_wfRel).wf.induction
      generalizing synthesis with
    | _ m ih =>
      subst hm
      refine Acc.intro _ fun frames h => ?_
      cases h with
      | pop => exact houter
      | use _ _ hlt => exact ih _ hlt _ rfl
      | push _ _ _ _ hlt => omega
  | succ room ihroom =>
    induction hm : synthesis.measure using (Prod.lex Nat.lt_wfRel Nat.lt_wfRel).wf.induction
      generalizing synthesis with
    | _ m ih =>
      subst hm
      refine Acc.intro _ fun frames h => ?_
      cases h with
      | pop => exact houter
      | use _ _ hlt => exact ih _ hlt _ rfl
      | push _ inner _ hlt _ =>
        refine ihroom _ ?_ (ih _ hlt _ rfl) inner.key inner.synthesis
        simp only [List.length_cons]
        omega

omit [Scalar α] in
/-- **Stacks descend only finitely often**, whatever the limit. -/
theorem descends_wf (limit : Nat) : WellFounded (Descends (α := α) limit) := by
  refine ⟨fun frames => ?_⟩
  induction frames with
  | nil => exact Acc.intro _ fun _ h => by cases h
  | cons frame outer ih => exact acc_cons limit outer (by omega) ih frame.key frame.synthesis

omit [Scalar α] in
/-- Machines whose stacks descend under the same depth limit do so only finitely often. -/
theorem wf_of_descends {R : Lowering α → Lowering α → Prop}
    (hR : ∀ {t s}, R t s → t.options.maxDepth = s.options.maxDepth ∧
      Descends s.options.maxDepth t.frames s.frames) : WellFounded R := by
  refine ⟨fun s => ?_⟩
  generalize hl : s.options.maxDepth = limit
  induction hf : s.frames using (descends_wf (α := α) limit).induction generalizing s with
  | _ frames ih =>
    subst hf
    refine Acc.intro _ fun t h => ?_
    obtain ⟨hlimit, hdesc⟩ := hR h
    exact ih t.frames (hl ▸ hdesc) t (hlimit.trans hl) rfl

/-- **Every run of the machine ends.** -/
theorem follows_wf : WellFounded (Follows (α := α)) := wf_of_descends descends_of_follows

instance : WellFoundedRelation (Lowering α) := ⟨Follows, follows_wf⟩

/-! ### Taking instructions -/

/-- **The next instruction** or error, and the machine after it; nothing once the run has ended. -/
def next (s : Lowering α) : Option (Except (GateError α) (Instruction α)) × Lowering α :=
  match _h : s.step with
  | .finished => (none, s)
  | .silent t => t.next
  | .item i t => (some (.ok i), t)
  | .failure e t => (some (.error e), t)
termination_by s
decreasing_by exact .inl _h

/-- What a run gives from here on: its instructions, the error that ends it, if one does, and the machine
at the end. -/
structure Outcome (α : Type) where
  instructions : List (Instruction α)
  error? : Option (GateError α)
  state : Lowering α

/-- **All instructions** from here on. -/
def drain (s : Lowering α) : Outcome α :=
  match _h : s.step with
  | .finished => ⟨[], none, s⟩
  | .silent t => t.drain
  | .item i t =>
    let rest := t.drain
    { rest with instructions := i :: rest.instructions }
  | .failure e t => ⟨[], some e, t⟩
termination_by s
decreasing_by
  · exact .inl _h
  · exact .inr ⟨i, _h⟩

end Lowering

namespace Lowerer

variable {α : Type} [Scalar α]

/-- The machine before its first move, with nothing on the stack. -/
def start (l : Lowerer α) (plan : Plan α) (seed : Ledger α) : Lowering α where
  registry := l.registry
  options := l.options
  plan := plan
  context := seed
  frames := []
  failed := false

/-- **A call under way** from the state `seed`. Every error that the call can give by itself is met
here. -/
def lower (l : Lowerer α) (call : GateCall α) (seed : Ledger α) :
    Except (GateError α) (Lowering α) := do
  let plan ← l.plan call
  (l.start plan seed).enter call call.key

/-- All instructions of a call and the ledger after them. -/
def lowerInto (l : Lowerer α) (call : GateCall α) (ledger : Ledger α) :
    Except (GateError α) (List (Instruction α) × Ledger α) := do
  let outcome := (← l.lower call ledger).drain
  match outcome.error? with
  | some e => throw e
  | none => return (outcome.instructions, (outcome.state.intoContext?).getD ledger)

/-- **A call lowered into a ledger that is kept.** The outcome is the instructions or the error, and the
ledger afterwards. -/
def lowerOnto (l : Lowerer α) (call : GateCall α) (ledger : Ledger α) :
    Except (GateError α) (List (Instruction α)) × Ledger α :=
  match l.lowerInto call ledger with
  | .error e => (.error e, ledger)
  | .ok (instructions, final) => (.ok instructions, final)

end Lowerer

end PulseControl
