import PulseControl.Proofs.Lowering.Safety

/-!
# Markers that are not declared

A marker is looked up in the plan of the whole call, not among the steps of the gate that gives it. So a
marker that its gate has not declared is refused as undeclared exactly where no call of the tree, whatever
gate makes it, has the same gate and targets, provided that there is room on the stack. A marker that is
declared is never refused as undeclared.

The stack names gates and not calls, so the calls under way are kept beside it.

* `PulseControl.Lowerer.Reached` – the states of a run, with the calls under way;
* `PulseControl.Lowerer.Reached.underWay` – how the calls match the stack;
* `PulseControl.Lowerer.undeclared_iff_outside_tree` – which markers are refused as undeclared.
-/

namespace PulseControl

/-! ### The targets of a step -/

namespace Step

variable {α : Type} [Scalar α] {step : Step α} {parent call : GateCall α} {signature : Signature}

/-- The slot of a step inside a call does not depend on the arguments of the call. -/
theorem bind_slot (h : step.bind parent signature = .ok call) :
    call.key = step.key ∧ step.targets.mapM parent.target = .ok call.targets := by
  obtain ⟨targets, htargets, h⟩ := Except.bind_eq_ok.mp h
  obtain ⟨args, -, h⟩ := Except.bind_eq_ok.mp h
  cases h
  exact ⟨rfl, htargets⟩

end Step

namespace GateCall

variable {α : Type}

theorem target_congr {c c' : GateCall α} (h : c.slot = c'.slot) :
    (c.target : Nat → Except (GateError α) Qubit) = c'.target := by
  obtain ⟨key, targets, args⟩ := c
  obtain ⟨key', targets', args'⟩ := c'
  cases h
  rfl

end GateCall

/-! ### The calls under way -/

namespace Lowering

variable {α : Type}

/-- The topmost gate gives this marker now. -/
def Gives (s : Lowering α) (x : GateCall α) : Prop :=
  ∃ frame outer rest, s.frames = frame :: outer ∧
    frame.synthesis.next s.context = some (.expand x, rest)

/-- The calls under way after one move, where they were `calls` before. -/
def callsAfter (s : Lowering α) (calls : List (GateCall α)) : List (GateCall α) :=
  match s.frames with
  | [] => calls
  | frame :: _ =>
    match frame.synthesis.next s.context with
    | none => calls.tail
    | some (.expand x, _) => x :: calls
    | some _ => calls

variable [Scalar α]

/-- Silent moves lead from the machine `s` to the machine `t`. -/
def Silently (s t : Lowering α) : Prop := Relation.ReflTransGen (fun a b => a.step = .silent b) s t

theorem next_of_silently {s t : Lowering α} (h : s.Silently t) : s.next = t.next := by
  induction h with
  | refl => rfl
  | tail _ hstep ih => exact ih.trans (next_of_silent hstep)

/-- **The error comes next and nothing after it**, however many silent moves lead here. -/
def Refuses (s : Lowering α) (e : GateError α) : Prop :=
  ∀ p, Silently p s → ∃ t, p.next = (some (.error e), t) ∧ ∀ n, (t.pulls n).next.1 = none

theorem next_pulls_of_failed {s : Lowering α} (h : s.failed = true) (n : Nat) :
    (s.pulls n).next.1 = none := by
  have hnext : s.next = (none, s) := next_of_failed h
  induction n with
  | zero => rw [pulls, hnext]
  | succ n ih => rwa [pulls, hnext]

/-- A marker whose gate is refused ends the run. -/
theorem refuses_of_enter {s : Lowering α} {frame : Frame α} {outer : List (Frame α)}
    {call : GateCall α} {rest : Synthesis α} {e : GateError α} (hrunning : s.failed = false)
    (hframes : s.frames = frame :: outer)
    (hnext : frame.synthesis.next s.context = some (.expand call, rest))
    (he : (s.use frame.key rest outer).enter call frame.key = .error e) : s.Refuses e := by
  intro p hp
  refine ⟨{ s.use frame.key rest outer with failed := true }, ?_, next_pulls_of_failed rfl⟩
  rw [next_of_silently hp, next_of_failure (Moves.refuse hrunning hframes hnext he).step_eq]

end Lowering

namespace Lowerer

variable {α : Type} [Scalar α]

/-- **The states of the run of a call**, each with the calls under way, the innermost first. -/
inductive Reached (l : Lowerer α) (call : GateCall α) (seed : Ledger α) :
    List (GateCall α) → Lowering α → Prop where
  | start {s : Lowering α} : l.lower call seed = .ok s → Reached l call seed [call] s
  | move {calls : List (GateCall α)} {s t : Lowering α} : Reached l call seed calls s →
    Lowering.Follows t s → Reached l call seed (s.callsAfter calls) t

/-- How a call under way matches its gate on the stack: it has the key of the gate, and its slot is
planned. -/
structure Matches (plan : Plan α) (c : GateCall α) (frame : Frame α) : Prop where
  key : frame.key = c.key
  planned : ∃ params, plan[c.slot]? = some params

/-- **The calls under way match the stack.** -/
structure UnderWay (l : Lowerer α) (plan : Plan α) (calls : List (GateCall α))
    (s : Lowering α) : Prop where
  registry : s.registry = l.registry
  options : s.options = l.options
  planned : s.plan = plan
  running : s.failed = false
  frames : List.Forall₂ (Matches plan) calls s.frames

variable {l : Lowerer α} {plan : Plan α} {call c x : GateCall α} {seed : Ledger α}
  {calls : List (GateCall α)} {s t : Lowering α}

/-- A call that is entered is under way. -/
theorem UnderWay.enter (h : l.UnderWay plan calls s) {parent : GateKey}
    (ht : s.enter x parent = .ok t) : l.UnderWay plan (x :: calls) t := by
  obtain ⟨-, params, synthesis, d, hparams, -, -, rfl⟩ := Lowering.enter_eq_ok_iff.mp ht
  exact ⟨h.registry, h.options, h.planned, h.running,
    .cons ⟨rfl, params, h.planned ▸ hparams⟩ h.frames⟩

omit [Scalar α] in
/-- What is left of the topmost gate belongs to the same call. -/
theorem UnderWay.use (h : l.UnderWay plan calls s) {frame : Frame α} {outer : List (Frame α)}
    (hframes : s.frames = frame :: outer) (rest : Synthesis α) :
    l.UnderWay plan calls (s.use frame.key rest outer) := by
  refine ⟨h.registry, h.options, h.planned, h.running, ?_⟩
  have hall := h.frames
  rw [hframes] at hall
  cases hall with
  | cons hmatch houter => exact .cons ⟨hmatch.key, hmatch.planned⟩ houter

/-- Every move keeps the match. -/
theorem UnderWay.follows (h : l.UnderWay plan calls s) (hf : Lowering.Follows t s) :
    l.UnderWay plan (s.callsAfter calls) t := by
  have hmoves := s.moves_step
  rw [Lowering.callsAfter]
  rcases hf with hstep | ⟨i, hstep⟩
  · rw [hstep] at hmoves
    cases hmoves with
    | pop _ hframes hnext =>
      have hall := h.frames
      rw [hframes] at hall ⊢
      cases hall with
      | cons _ houter =>
        simp only [hnext, List.tail_cons]
        exact ⟨h.registry, h.options, h.planned, h.running, houter⟩
    | expandSilently _ hframes hnext ht _ =>
      simp only [hframes, hnext]
      exact (h.use hframes _).enter ht
  · rw [hstep] at hmoves
    cases hmoves with
    | give _ hframes hnext hi =>
      have hused := h.use hframes
      simp only [hframes, hnext]
      cases i with
      | expand x => cases hi
      | addWaveform channel waveform =>
        exact ⟨h.registry, h.options, h.planned, h.running, (hused _).frames⟩
      | setState update => exact ⟨h.registry, h.options, h.planned, h.running, (hused _).frames⟩
    | expand _ hframes hnext ht _ =>
      simp only [hframes, hnext]
      exact (h.use hframes _).enter ht

/-- **In every state of a run the calls under way match the stack.** -/
theorem Reached.underWay (h : l.Reached call seed calls s) (hplan : l.plan call = .ok plan) :
    l.UnderWay plan calls s := by
  induction h with
  | start hlower =>
    obtain ⟨plan', hplan', henter⟩ := lower_eq_ok.mp hlower
    obtain rfl : plan = plan' := Except.ok.inj (hplan.symm.trans hplan')
    -- before the first move no call is under way and the stack is empty
    have hstart : l.UnderWay plan [] (l.start plan seed) := ⟨rfl, rfl, rfl, rfl, .nil⟩
    exact hstart.enter henter
  | move _ hf ih => exact ih.follows hf

/-- **A declared marker has a slot of the tree**, even if the call under way is not in the tree itself:
some call on the same targets is, and its steps lead to the same slots. -/
theorem UnderWay.slot_of_declared {visits : List (Slot × Params α)}
    (h : l.UnderWay plan (c :: calls) s)
    (htree : l.treePlan l.options.maxDepth call = .ok visits)
    (hplan : ∀ (slot : Slot) (params : Params α),
      plan[slot]? = some params ↔ (slot, params) ∈ visits)
    {d : GateDefinition α} (hd : l.registry.get? c.key = some d) {step : Step α}
    (hstep : step ∈ d.subcalls) (hkey : step.key = x.key)
    (htargets : step.targets.mapM c.target = .ok x.targets) :
    ∃ params, (x.slot, params) ∈ visits := by
  have hall := h.frames
  generalize s.frames = frames at hall
  cases hall with
  | cons hmatch _ =>
    obtain ⟨params, hparams⟩ := hmatch.planned
    -- a call of the tree on the same slot: its arguments may differ, the targets of its steps do not
    obtain ⟨r, c', sub, hsub, hslot, -, hsubset⟩ :=
      exists_of_mem_treePlan htree ((hplan _ _).mp hparams)
    obtain ⟨d', params', below, hd', -, -, hbelow, rfl⟩ := treePlan_succ_eq_ok.mp hsub
    obtain rfl : d = d' := by
      have hd' := (Registry.checkCall_eq_ok.mp hd').1
      rw [show c'.key = c.key from congrArg Slot.key hslot, hd] at hd'
      exact Option.some.inj hd'
    obtain ⟨inner, hinner, htree'⟩ := Except.exists_of_mem_mapM hbelow hstep
    obtain ⟨x', hbind, htree'⟩ := Except.bind_eq_ok.mp htree'
    obtain ⟨hkey', htargets'⟩ := Step.bind_slot hbind
    rw [GateCall.target_congr hslot, htargets] at htargets'
    have hx : x'.slot = x.slot := by
      rw [GateCall.slot, GateCall.slot, hkey', hkey, Except.ok.inj htargets']
    obtain ⟨r, rfl⟩ := exists_room_of_treePlan htree'
    obtain ⟨_, params'', _, _, _, _, _, rfl⟩ := treePlan_succ_eq_ok.mp htree'
    exact ⟨params'', hx ▸ hsubset (List.mem_cons_of_mem _
      (List.mem_flatten.mpr ⟨_, hinner, List.mem_cons_self⟩))⟩

/-- **Which markers are refused as undeclared.** In every state of a run, a marker that comes where the
stack is full is refused for the depth; one that comes where there is room is refused as undeclared if
its slot is none of those of the static tree of the whole call, and then nothing comes after the error.
If its slot is one of those, the gate is put on the stack unless the call fails by itself, whichever gate
gives the marker. The slots of the tree include all those that the gate itself declares. -/
theorem undeclared_outside_tree {first : Lowering α} (hlower : l.lower call seed = .ok first) :
    ∃ visits, l.treePlan l.options.maxDepth call = .ok visits ∧
      ∀ c calls s x, l.Reached call seed (c :: calls) s → s.Gives x →
        (l.options.maxDepth ≤ s.frames.length →
          s.Refuses (.expansionDepth x.key l.options.maxDepth)) ∧
        (s.frames.length < l.options.maxDepth → (∀ params, (x.slot, params) ∉ visits) →
          s.Refuses (.undeclaredExpansion c.key x.key x.targets)) ∧
        (∀ params, s.frames.length < l.options.maxDepth → (x.slot, params) ∈ visits →
          (∀ e, l.registry.checkedSynthesis x params = .error e → s.Refuses e) ∧
          ∀ synthesis, l.registry.checkedSynthesis x params = .ok synthesis → ∃ t outer,
            Lowering.Follows t s ∧ t.frames = ⟨x.key, synthesis⟩ :: outer) ∧
        (∀ d, l.registry.get? c.key = some d → ∀ step ∈ d.subcalls, step.key = x.key →
          step.targets.mapM c.target = .ok x.targets → ∃ params, (x.slot, params) ∈ visits) := by
  obtain ⟨plan, hplan, -⟩ := lower_eq_ok.mp hlower
  obtain ⟨visits, htree, hmem⟩ := plan_eq_ok.mp hplan
  refine ⟨visits, htree, fun c calls s x hreached hgives => ?_⟩
  have hway := hreached.underWay hplan
  obtain ⟨frame, outer, rest, hframes, hnext⟩ := hgives
  have hused := hway.use hframes rest
  have hheight : (s.use frame.key rest outer).frames.length = s.frames.length := by
    rw [hframes]
    rfl
  have hkey : frame.key = c.key := by
    have hall := hway.frames
    rw [hframes] at hall
    cases hall with
    | cons hmatch _ => exact hmatch.key
  have hrefuses : ∀ {e}, (s.use frame.key rest outer).enter x frame.key = .error e →
      s.Refuses e := Lowering.refuses_of_enter hway.running hframes hnext
  refine ⟨fun hfull => hrefuses ?_, fun hroom hout => hrefuses ?_, fun params hroom hin => ?_,
    fun d hd step hstep hstepKey htargets =>
      hway.slot_of_declared htree hmem hd hstep hstepKey htargets⟩
  · rw [Lowering.enter_of_full (by rwa [hheight, hused.options]), hused.options]
  · have hnone : (s.use frame.key rest outer).plan[x.slot]? = none := by
      rw [hused.planned, Option.eq_none_iff_forall_ne_some]
      exact fun params hparams => hout params ((hmem _ _).mp hparams)
    rw [Lowering.enter_of_unplanned (by rwa [hheight, hused.options]) hnone, hkey]
  · have hsome : (s.use frame.key rest outer).plan[x.slot]? = some params := by
      rw [hused.planned]
      exact (hmem _ _).mpr hin
    have henter : (s.use frame.key rest outer).enter x frame.key = _ :=
      Lowering.enter_of_planned (by rwa [hheight, hused.options]) hsome
    rw [show (s.use frame.key rest outer).registry = l.registry from hused.registry] at henter
    refine ⟨fun e he => hrefuses ?_, fun synthesis hs => ?_⟩
    · rw [henter, he]
      rfl
    · rw [hs] at henter
      exact ⟨_, _, Lowering.follows_of_entered hway.running hframes hnext henter, rfl⟩

/-! ### A stray marker that passes -/

/-- A procedure on one qubit that expands to a gate without declaring it. -/
def undeclaring (inner : GateKey) : Procedure α where
  signature := Signature.qubits 1
  reads := []
  subcalls := []
  synthesize call _ := do
    let q ← call.target 0
    return (∅ : Synthesis α).emit (.expand ⟨inner, [q], []⟩)

/-- A call on one qubit. -/
def onQubit (name : String) : GateCall Float := ⟨.plain name, ["Q0"], []⟩

/-- A gate that expands to another one without declaring it, and a gate with both among its steps. -/
def strayGates : List (GateKey × GateDefinition Float) :=
  [(.plain "inner", .compound (Signature.qubits 1) []),
    (.plain "stray", .primitive [] (undeclaring (.plain "inner"))),
    (.plain "both", .compound (Signature.qubits 1)
      [⟨.plain "stray", [0], []⟩, ⟨.plain "inner", [0], []⟩])]

/-- The registry of these gates, without calibration. -/
def strayLowerer : Lowerer Float where
  registry := (((∅ : Registry.Builder Float).attemptAll strayGates).build).toOption.getD ⟨∅, []⟩
  calibration := fun _ => ∅
  options := {}

/-- The machine when these gates are on the stack, each with these calls left. -/
def strayMachine (frames : List (String × List (GateCall Float))) : Lowering Float where
  registry := strayLowerer.registry
  options := {}
  plan := (strayLowerer.plan (onQubit "both")).toOption.getD ∅
  context := ∅
  frames := frames.map fun f => ⟨.plain f.1, ⟨f.2.map fun c => .emit (.expand c), []⟩⟩
  failed := false

/-- Below a gate that has the inner gate among its steps, the stray marker is expanded: the run goes on
with the inner gate on the stack, although the gate that gives the marker declares nothing. -/
theorem stray_marker_passes :
    ((∅ : Registry.Builder Float).attemptAll strayGates).build = .ok strayLowerer.registry ∧
    ∃ first s, strayLowerer.lower (onQubit "both") ∅ = .ok first ∧
      strayLowerer.Reached (onQubit "both") ∅ [onQubit "stray", onQubit "both"] s ∧
      s.Gives (onQubit "inner") ∧
      (strayLowerer.registry.get? (.plain "stray")).map GateDefinition.subcalls = some [] ∧
      ∃ t outer, Lowering.Follows t s ∧ t.frames = ⟨.plain "inner", ∅⟩ :: outer := by
  have hlower : strayLowerer.lower (onQubit "both") ∅ =
      .ok (strayMachine [("both", [onQubit "stray", onQubit "inner"])]) := by rfl
  have hfollows : Lowering.Follows
      (strayMachine [("stray", [onQubit "inner"]), ("both", [onQubit "inner"])])
      (strayMachine [("both", [onQubit "stray", onQubit "inner"])]) :=
    Or.inr ⟨.expand (onQubit "stray"), rfl⟩
  have hreached : strayLowerer.Reached (onQubit "both") ∅ [onQubit "stray", onQubit "both"]
      (strayMachine [("stray", [onQubit "inner"]), ("both", [onQubit "inner"])]) :=
    .move (.start hlower) hfollows
  have hgives : (strayMachine [("stray", [onQubit "inner"]), ("both", [onQubit "inner"])]).Gives
      (onQubit "inner") := ⟨_, _, _, rfl, rfl⟩
  obtain ⟨visits, htree, hmarkers⟩ := undeclared_outside_tree hlower
  obtain ⟨-, -, hplanned, -⟩ := hmarkers _ _ _ _ hreached hgives
  have hin : ((onQubit "inner").slot, Params.empty (.plain "inner")) ∈ visits := by
    cases htree
    exact List.mem_cons_of_mem _ (List.mem_cons_of_mem _ List.mem_cons_self)
  exact ⟨rfl, _, _, hlower, hreached, hgives, rfl, (hplanned _ (by decide) hin).2 ∅ rfl⟩

end Lowerer

end PulseControl
