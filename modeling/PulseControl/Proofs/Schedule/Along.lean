import PulseControl.Proofs.Ledger.Blocks
import PulseControl.Proofs.Lowering.Expansion
import PulseControl.Proofs.Schedule.Records

/-!
# What holds all along a run

Some properties of an instruction can only be told on the ledger that it meets: that a cursor moves
forward, say. If every synthesis of a lowerer keeps such a property from stage to stage, whatever ledger a
stage meets, then it holds of every instruction of every run. What needs care is the stack: a gate that is
expanded in the middle of another one changes the ledger under it, and the outer gate must have nothing
left there that it has computed on the ledger before.

* `PulseControl.Ledger.Along` – a property holds of each of some instructions on the ledger it meets;
* `PulseControl.Synthesis.Orderly` – a synthesis keeps the property, from whatever ledger it starts;
* `PulseControl.Lowerer.Orderly.step` – what one move of the machine keeps;
* `PulseControl.Lowerer.along_of_lower` – so the property holds all along a call;
* `PulseControl.Schedule.exists_runEach` – a history in which only calls are run is one of single calls;
* `PulseControl.Schedule.inBlocks_runEach`, `PulseControl.Schedule.along_runEach` – and all along the log of
  a schedule, which comes in blocks from the calls.
-/

namespace PulseControl

variable {α : Type} {P : Ledger α → Instruction α → Prop}

/-! ### Instructions one after the other -/

namespace Ledger

/-- **All along some instructions** a property holds of each of them on the ledger that those before it
leave. -/
def Along (P : Ledger α → Instruction α → Prop) : Ledger α → List (Instruction α) → Prop
  | _, [] => True
  | l, i :: is => P l i ∧ Along P (l.apply i) is

@[simp] theorem along_nil (l : Ledger α) : l.Along P [] := trivial

@[simp] theorem along_cons {l : Ledger α} {i : Instruction α} {is : List (Instruction α)} :
    l.Along P (i :: is) ↔ P l i ∧ (l.apply i).Along P is :=
  Iff.rfl

theorem along_append {l : Ledger α} {is js : List (Instruction α)} :
    l.Along P (is ++ js) ↔ l.Along P is ∧ (l.applyAll is).Along P js := by
  induction is generalizing l with
  | nil => simp
  | cons i is ih => rw [List.cons_append, along_cons, along_cons, ih, and_assoc, applyAll_cons]

/-- The same, said of every place among the instructions. -/
theorem along_iff {l : Ledger α} {is : List (Instruction α)} :
    l.Along P is ↔ ∀ before i after, is = before ++ i :: after → P (l.applyAll before) i := by
  constructor
  · rintro h before i after rfl
    exact (along_append.mp h).2.1
  · intro h
    induction is generalizing l with
    | nil => trivial
    | cons i is ih =>
      refine ⟨h [] i is rfl, ih fun before j after heq => ?_⟩
      exact h (i :: before) j after (congrArg _ heq)

end Ledger

/-! ### Syntheses -/

/-- A stage keeps a property: what it gives has it, on every ledger that the stage may meet, and is no
marker unless it is fixed. -/
def Stage.Orderly (P : Ledger α → Instruction α → Prop) : Stage α → Prop
  | .emit i => ∀ l, P l i
  | .deferred f => ∀ l, Instruction.Plain (f l) ∧ l.Along P (f l)

namespace Synthesis

/-- **A synthesis that has not begun, or has come to the end of a stage, keeps a property.** -/
structure Orderly (P : Ledger α → Instruction α → Prop) (s : Synthesis α) : Prop where
  pending : s.pending = []
  stages : ∀ stage ∈ s.stages, stage.Orderly P

/-- A synthesis in the middle of a stage keeps a property, from a ledger on. -/
structure OrderlyAt (P : Ledger α → Instruction α → Prop) (l : Ledger α) (s : Synthesis α) :
    Prop where
  plain : Instruction.Plain s.pending
  along : l.Along P s.pending
  stages : ∀ stage ∈ s.stages, stage.Orderly P

variable {s rest : Synthesis α} {l : Ledger α} {i : Instruction α}

theorem Orderly.orderlyAt (h : s.Orderly P) (l : Ledger α) : s.OrderlyAt P l where
  plain := by
    rw [h.pending]
    intro i hi
    cases hi
  along := by
    rw [h.pending]
    exact Ledger.along_nil l
  stages := h.stages

/-- What the stages give next has the property, and so has what they give after it. After a marker nothing
is left of its stage. -/
theorem orderlyAt_of_nextOf {stages : List (Stage α)}
    (h : ∀ stage ∈ stages, Stage.Orderly P stage) (hnext : nextOf l stages = some (i, rest)) :
    P l i ∧ rest.OrderlyAt P (l.apply i) ∧ (i.isExpand = true → rest.pending = []) := by
  induction stages with
  | nil => cases hnext
  | cons stage stages ih =>
    have hstages : ∀ stage ∈ stages, Stage.Orderly P stage :=
      fun stage hmem => h stage (List.mem_cons_of_mem _ hmem)
    cases stage with
    | emit j =>
      cases hnext
      have hi : Stage.Orderly P (.emit i) := h _ List.mem_cons_self
      exact ⟨hi l, Orderly.orderlyAt ⟨rfl, hstages⟩ _, fun _ => rfl⟩
    | deferred f =>
      rw [nextOf] at hnext
      split at hnext
      · exact ih hstages hnext
      · next j js hf =>
        cases hnext
        have hstage : Stage.Orderly P (.deferred f) := h _ List.mem_cons_self
        obtain ⟨hplain, hi, hrest⟩ := hf ▸ hstage l
        refine ⟨hi, ⟨fun k hk => hplain k (List.mem_cons_of_mem _ hk), hrest, hstages⟩, fun he => ?_⟩
        cases (hplain i List.mem_cons_self).symm.trans he

/-- **What a synthesis gives next has the property**, and what is left keeps it. After a marker nothing is
left of its stage. -/
theorem OrderlyAt.next (h : s.OrderlyAt P l) (hnext : s.next l = some (i, rest)) :
    P l i ∧ rest.OrderlyAt P (l.apply i) ∧ (i.isExpand = true → rest.pending = []) := by
  obtain ⟨stages, pending⟩ := s
  obtain ⟨hplain, halong, hstages⟩ := h
  cases pending with
  | nil => exact orderlyAt_of_nextOf hstages hnext
  | cons j js =>
    cases hnext
    refine ⟨halong.1, ⟨fun k hk => hplain k (List.mem_cons_of_mem _ hk), halong.2, hstages⟩, ?_⟩
    intro he
    cases (hplain i List.mem_cons_self).symm.trans he

end Synthesis

/-! ### The machine -/

namespace Lowerer

variable [Scalar α]

/-- **A lowerer keeps a property**: every gate that it can put on the stack does. -/
def Steers (l : Lowerer α) (P : Ledger α → Instruction α → Prop) : Prop :=
  ∀ call params definition synthesis, l.resolve call.slot = .ok params →
    l.registry.checkCall call = .ok definition →
    l.registry.synthesize call params = .ok synthesis → synthesis.Orderly P

/-- A stack keeps a property from a ledger on: only the topmost gate may be in the middle of a stage. -/
inductive OrderlyStack (P : Ledger α → Instruction α → Prop) (ledger : Ledger α) :
    List (Frame α) → Prop where
  | nil : OrderlyStack P ledger []
  | cons {frame : Frame α} {outer : List (Frame α)} : frame.synthesis.OrderlyAt P ledger →
    (∀ below ∈ outer, below.synthesis.Orderly P) → OrderlyStack P ledger (frame :: outer)

/-- **A machine that keeps a property.** -/
structure Orderly (l : Lowerer α) (P : Ledger α → Instruction α → Prop) (s : Lowering α) : Prop where
  faithful : l.Faithful s
  stack : OrderlyStack P s.context s.frames

/-- The move gives only what has the property, and leaves a machine that keeps it. -/
def MovesOrderly (l : Lowerer α) (P : Ledger α → Instruction α → Prop) (s : Lowering α) :
    Move α → Prop
  | .finished => True
  | .silent t => l.Orderly P t ∧ t.context = s.context
  | .item i t => P s.context i ∧ l.Orderly P t ∧ t.context = s.context.apply i
  | .failure _ _ => True

variable {l : Lowerer α} {s t : Lowering α} {call : GateCall α}

omit [Scalar α] in
theorem orderlyStack_of_orderly {frames : List (Frame α)}
    (h : ∀ frame ∈ frames, frame.synthesis.Orderly P) (ledger : Ledger α) :
    OrderlyStack P ledger frames := by
  cases frames with
  | nil => exact .nil
  | cons frame outer =>
    exact .cons ((h frame List.mem_cons_self).orderlyAt ledger)
      fun below hbelow => h below (List.mem_cons_of_mem _ hbelow)

/-- A gate can be put on gates none of which is in the middle of a stage. -/
theorem Orderly.enter (hsteers : l.Steers P) (hfaithful : l.Faithful s)
    (hbelow : ∀ frame ∈ s.frames, frame.synthesis.Orderly P) {parent : GateKey}
    (ht : s.enter call parent = .ok t) : l.Orderly P t := by
  refine ⟨hfaithful.enter ht, orderlyStack_of_orderly ?_ _⟩
  obtain ⟨-, params, synthesis, definition, hparams, hd, hs, rfl⟩ :=
    Lowering.enter_eq_ok_iff.mp ht
  rw [hfaithful.registry] at hd hs
  have hpushed := hsteers call params definition synthesis (hfaithful.plan _ _ hparams) hd hs
  intro frame hframe
  rcases List.mem_cons.mp hframe with rfl | hframe
  · exact hpushed
  · exact hbelow frame hframe

/-- **One move keeps the property.** -/
theorem Orderly.step (hsteers : l.Steers P) (h : l.Orderly P s) : l.MovesOrderly P s s.step := by
  -- a marker that comes now leaves nothing of its stage, so that its gate can be put on the stack
  have hmarker : ∀ {frame : Frame α} {outer : List (Frame α)} {x : GateCall α} {rest : Synthesis α}
      {t : Lowering α}, s.frames = frame :: outer →
      frame.synthesis.next s.context = some (.expand x, rest) →
      (s.use frame.key rest outer).enter x frame.key = .ok t →
      P s.context (.expand x) ∧ l.Orderly P t ∧ t.context = s.context := by
    intro frame outer x rest t hframes hnext ht
    have hstack := h.stack
    rw [hframes] at hstack
    cases hstack with
    | cons hframe hbelow =>
      obtain ⟨hx, hrest, hdone⟩ := hframe.next hnext
      have hused : l.Faithful (s.use frame.key rest outer) :=
        ⟨h.faithful.registry, h.faithful.options, h.faithful.plan, h.faithful.running⟩
      refine ⟨hx, Orderly.enter hsteers hused (fun below hmem => ?_) ht,
        (Lowering.enter_frame ht).2.2.2.1⟩
      rcases List.mem_cons.mp hmem with rfl | hmem
      · exact ⟨hdone rfl, hrest.stages⟩
      · exact hbelow below hmem
  have hmoves := s.moves_step
  generalize hmove : s.step = move at hmoves ⊢
  cases hmoves with
  | failed | done | refuse => trivial
  | @pop frame outer _ hframes _ =>
    have hstack := h.stack
    rw [hframes] at hstack
    cases hstack with
    | cons _ hbelow =>
      exact ⟨⟨h.faithful.follows (Or.inl hmove), orderlyStack_of_orderly hbelow _⟩, rfl⟩
  | @give frame outer i rest _ hframes hnext _ =>
    have hstack := h.stack
    rw [hframes] at hstack
    cases hstack with
    | cons hframe hbelow =>
      obtain ⟨hi, hrest, -⟩ := hframe.next hnext
      exact ⟨hi, ⟨h.faithful.follows (Or.inr ⟨i, hmove⟩), .cons hrest hbelow⟩, rfl⟩
  | expand _ hframes hnext ht _ => exact hmarker hframes hnext ht
  | expandSilently _ hframes hnext ht _ => exact (hmarker hframes hnext ht).2

/-- **All along its run** a machine keeps the property. -/
theorem Orderly.drain (hsteers : l.Steers P) (h : l.Orderly P s) :
    s.context.Along P s.drain.instructions := by
  induction s using Lowering.drain_induction with
  | finished s _ hdrain =>
    rw [hdrain]
    exact Ledger.along_nil _
  | silent s t hstep hdrain ih =>
    have hmove := h.step hsteers
    rw [hstep] at hmove
    obtain ⟨ht, hcontext⟩ := hmove
    rw [hdrain, ← hcontext]
    exact ih ht
  | item s i t hstep hdrain ih =>
    have hmove := h.step hsteers
    rw [hstep] at hmove
    obtain ⟨hi, ht, hcontext⟩ := hmove
    rw [hdrain]
    refine ⟨hi, ?_⟩
    rw [← hcontext]
    exact ih ht
  | failure s e t _ hdrain =>
    rw [hdrain]
    exact Ledger.along_nil _

/-- **All along a call** the property holds, up to its end or its error. -/
theorem along_of_lower (hsteers : l.Steers P) {seed : Ledger α} {first : Lowering α}
    (h : l.lower call seed = .ok first) : seed.Along P first.drain.instructions := by
  obtain ⟨plan, hplan, henter⟩ := lower_eq_ok.mp h
  have hfirst := Orderly.enter hsteers (start_faithful hplan seed) (List.forall_mem_nil _) henter
  have halong := hfirst.drain hsteers
  rwa [(Lowering.enter_frame henter).2.2.2.1] at halong

end Lowerer

/-! ### Schedules -/

namespace Schedule

variable [Scalar α] {seed : Ledger α} {s : Schedule α}

/-- The schedule after calls one after the other, each with a lowerer of its own. Those that fail are
passed over. -/
def runEach (s : Schedule α) (runs : List (Lowerer α × GateCall α)) : Schedule α :=
  s.performAll (runs.map fun run => .run run.1 run.2)

theorem runEach_append (s : Schedule α) (runs more : List (Lowerer α × GateCall α)) :
    s.runEach (runs ++ more) = (s.runEach runs).runEach more := by
  simp only [runEach, performAll, List.map_append, List.foldl_append]

/-- Calls that are run together are run one after the other, up to the first that fails. -/
theorem exists_runEach_of_runAll (s : Schedule α) (l : Lowerer α) (calls : List (GateCall α)) :
    ∃ ran, ran <+: calls ∧ (s.runAll l calls).2 = s.runEach (ran.map (l, ·)) := by
  induction calls generalizing s with
  | nil => exact ⟨[], List.nil_prefix, rfl⟩
  | cons call calls ih =>
    rw [runAll]
    split
    · next e s' hrun => exact ⟨[call], ⟨calls, rfl⟩, (congrArg Prod.snd hrun).symm⟩
    · next n s' hrun =>
      obtain ⟨ran, hran, hstate⟩ := ih s'
      refine ⟨call :: ran, List.cons_prefix_cons.mpr ⟨rfl, hran⟩, hstate.trans ?_⟩
      exact congrArg (runEach · _) (congrArg Prod.snd hrun).symm

/-- **Only calls are run**, with lowerers of a kind. -/
def Operation.Runs (L : Lowerer α → Prop) : Operation α → Prop
  | .apply _ => False
  | .run l _ => L l
  | .runAll l _ => L l

/-- **A history in which only calls are run** is one of single calls. -/
theorem exists_runEach {L : Lowerer α → Prop} {ops : List (Operation α)} (s : Schedule α)
    (h : ∀ op ∈ ops, op.Runs L) :
    ∃ runs, (∀ run ∈ runs, L run.1) ∧ s.performAll ops = s.runEach runs := by
  induction ops generalizing s with
  | nil => exact ⟨[], List.forall_mem_nil _, rfl⟩
  | cons op ops ih =>
    obtain ⟨hop, hops⟩ := List.forall_mem_cons.mp h
    obtain ⟨ran, hran, hone⟩ : ∃ ran : List (Lowerer α × GateCall α), (∀ run ∈ ran, L run.1) ∧
        s.perform op = s.runEach ran := by
      cases op with
      | apply i => cases hop
      | run l call => exact ⟨[(l, call)], List.forall_mem_singleton.mpr hop, rfl⟩
      | runAll l calls =>
        obtain ⟨ran, -, hstate⟩ := s.exists_runEach_of_runAll l calls
        exact ⟨ran.map (l, ·), List.forall_mem_map.mpr fun _ _ => hop, hstate⟩
    obtain ⟨runs, hruns, hrest⟩ := ih (s.perform op) hops
    refine ⟨ran ++ runs, List.forall_mem_append.mpr ⟨hran, hruns⟩, hrest.trans ?_⟩
    rw [hone, runEach_append]

/-- A call that is run adds a block to the log if it succeeds, and nothing else. -/
theorem Recorded.inBlocks_run {B : Ledger α → List (Instruction α) → Prop} (h : Recorded seed s)
    (hlog : seed.InBlocks B s.log) {l : Lowerer α} {call : GateCall α}
    (hcall : ∀ ledger first, l.lower call ledger = .ok first → first.drain.error? = none →
      B ledger first.drain.instructions) : seed.InBlocks B (s.run l call).2.log := by
  cases hlower : l.lower call s.ledger with
  | error e =>
    rw [run_of_lower_error hlower]
    exact hlog
  | ok first =>
    cases herror : first.drain.error? with
    | some e =>
      rw [run_of_drain_error hlower herror]
      exact hlog
    | none =>
      have hblock := hcall s.ledger first hlower herror
      rw [run_of_drain hlower herror, log_applyAll]
      refine hlog.append ?_
      rw [← h.ledger, ← List.append_nil first.drain.instructions]
      exact .block hblock (.nil _)

/-- **The log of calls that are run comes in blocks**, each of them what one of the calls gives. -/
theorem inBlocks_runEach {B : Ledger α → List (Instruction α) → Prop} (h : Recorded seed s)
    (hlog : seed.InBlocks B s.log) {runs : List (Lowerer α × GateCall α)}
    (hruns : ∀ run ∈ runs, ∀ ledger first, run.1.lower run.2 ledger = .ok first →
      first.drain.error? = none → B ledger first.drain.instructions) :
    seed.InBlocks B (s.runEach runs).log := by
  induction runs generalizing s with
  | nil => exact hlog
  | cons run runs ih =>
    obtain ⟨hfirst, hrest⟩ := List.forall_mem_cons.mp hruns
    exact ih (h.run run.1 run.2) (h.inBlocks_run hlog hfirst) hrest

/-- **All along the log** of calls that are run the property holds. -/
theorem along_runEach (seed : Ledger α) {runs : List (Lowerer α × GateCall α)}
    (hsteers : ∀ run ∈ runs, run.1.Steers P) : seed.Along P ((ofLedger seed).runEach runs).log := by
  have hblocks := inBlocks_runEach (B := Ledger.Along P) (recorded_ofLedger seed) (.nil seed)
    fun run hrun ledger first hfirst _ => Lowerer.along_of_lower (hsteers run hrun) hfirst
  exact hblocks.join Ledger.along_nil fun _ _ _ his hjs => Ledger.along_append.mpr ⟨his, hjs⟩

end Schedule

end PulseControl
