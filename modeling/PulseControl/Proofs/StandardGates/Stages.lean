import PulseControl.Proofs.Ledger.Bits
import PulseControl.Proofs.Lowering.Calls
import PulseControl.Proofs.Param.Resolution

/-!
# The stages of a gate

In a registry of the library and further compound gates, a synthesis begins with nothing pending, and its
stages are of a few kinds: markers, and one kind of computed stage for each procedure. A proof about every
instruction that can come is a case for each kind.

* `PulseControl.StandardGates.Part` – the kinds of stages, each with what is known of its targets and
  parameters;
* `PulseControl.StandardGates.Extended.parts` – there are no others;
* `PulseControl.StandardGates.Part.writes` – the bits that a stage writes;
* `PulseControl.StandardGates.Extended.givesBlocks`, `PulseControl.StandardGates.Extended.forall_mem` –
  from the stages to the blocks and the instructions of an expansion.
-/

namespace PulseControl

variable {α : Type} [Scalar α]

/-- Parameters that a sound schema has given. -/
def ParamSchema.Resolved (schema : ParamSchema α) (gate : GateKey) (params : Params α) : Prop :=
  schema.WellFormed gate ∧ ∃ overrides, schema.resolve gate overrides = .ok params

/-- **A step has no other targets than its gate.** -/
theorem Step.targets_subset {step : Step α} {parent call : GateCall α} {signature : Signature}
    (h : step.bind parent signature = .ok call) : call.targets ⊆ parent.targets := by
  obtain ⟨targets, htargets, h⟩ := Except.bind_eq_ok.mp h
  obtain ⟨args, -, h⟩ := Except.bind_eq_ok.mp h
  cases h
  intro q hq
  obtain ⟨i, -, hi⟩ := Except.exists_of_mem_result htargets hq
  exact GateCall.target_mem hi

/-- A measurement writes one bit or none. -/
theorem Readout.bits_play (p : Pulse α) (choice : BitChoice) (q : Qubit) (l : Ledger α) :
    Instruction.bits (play p choice q l) = (choice.bit? l).toList := by
  rw [play]
  cases choice.bit? l <;> rfl

namespace StandardGates

open Instruction (bits)

/-- **A stage of a synthesis** of a call. -/
inductive Part (call : GateCall α) (params : Params α) : Stage α → Prop where
  /-- The marker of a step, which has no targets of its own. -/
  | marker {x : GateCall α} : x.targets ⊆ call.targets → Part call params (.emit (.expand x))
  | rotation {q : Qubit} {theta phi : α} {p : DriveRotation.Pulse α} :
    call.target 0 = .ok q → DriveRotation.schema.Resolved call.key params →
    DriveRotation.Pulse.ofParams params theta phi = .ok p → p.isEmpty = false →
    Part call params (.deferred (p.play q))
  | readout {q : Qubit} {choice : Readout.BitChoice} {p : Readout.Pulse α} :
    call.key = .plain "Measure" → call.target 0 = .ok q →
    Readout.BitChoice.ofCall call = .ok choice → Readout.schema.Resolved call.key params →
    Readout.Pulse.ofParams params = .ok p → Part call params (.deferred (Readout.play p choice q))
  /-- One pass of a cross resonance, plain or echoed. -/
  | pass {control target : Qubit} {p : CrossResonance.Pulse α} (sign : α) :
    call.target 0 = .ok control → call.target 1 = .ok target →
    CrossResonance.schema.Resolved call.key params → CrossResonance.Pulse.ofParams params = .ok p →
    Part call params (.deferred (CrossResonance.pass p control target sign))
  | flux {a b : Qubit} {p : FluxPulse.Pulse α} : call.target 0 = .ok a → call.target 1 = .ok b →
    FluxPulse.schema.Resolved call.key params → FluxPulse.Pulse.ofParams params = .ok p →
    Part call params (.deferred (FluxPulse.play p a b))
  | phase {q : Qubit} {theta : α} : call.target 0 = .ok q →
    Part call params (.deferred fun l => [.setPhase q (l.phase q + theta)])
  | delay {q : Qubit} {duration : α} : call.target 0 = .ok q → ¬duration < 0 →
    Part call params (.deferred fun l => [.setTime q (l.time q + duration)])
  | barrier : Part call params (.deferred (Barrier.align call.targets))

variable {call : GateCall α} {params : Params α} {s : Synthesis α} {stage : Stage α}

/-- The stages of the procedures of the library. -/
theorem primitives_parts {key : GateKey} {schema : ParamSchema α} {procedure : Procedure α}
    (hmem : (key, .primitive schema procedure) ∈ primitives (α := α)) (hkey : call.key = key)
    (hparams : schema.Resolved call.key params) (hs : procedure.synthesize call params = .ok s) :
    s.pending = [] ∧ ∀ stage ∈ s.stages, Part call params stage := by
  have hdefer : ∀ {f : Ledger α → List (Instruction α)}, Part call params (.deferred f) →
      (Synthesis.defer f).pending = [] ∧
        ∀ stage ∈ (Synthesis.defer f).stages, Part call params stage := by
    intro f hf
    refine ⟨rfl, fun stage hstage => ?_⟩
    rwa [List.mem_singleton.mp hstage]
  cases standard_of_mem hmem with
  | rotation =>
    obtain ⟨q, theta, phi, p, hq, hp, ⟨-, rfl⟩ | ⟨hplays, rfl⟩⟩ := DriveRotation.of_synthesize hs
    · exact ⟨rfl, List.forall_mem_nil _⟩
    · exact hdefer (.rotation hq hparams hp hplays)
  | readout =>
    obtain ⟨q, choice, p, hq, hchoice, hp, rfl⟩ := Readout.of_synthesize hs
    exact hdefer (.readout hkey hq hchoice hparams hp)
  | cross key variant =>
    cases variant with
    | direct =>
      obtain ⟨p, control, target, hp, hcontrol, htarget, rfl⟩ :=
        CrossResonance.of_synthesize_direct hs
      exact hdefer (.pass 1 hcontrol htarget hparams hp)
    | echoed =>
      obtain ⟨p, control, target, hp, hcontrol, htarget, rfl⟩ :=
        CrossResonance.of_synthesize_echoed hs
      have hflip : Part call params (.emit (.expand ⟨CrossResonance.echoGate, [control], []⟩)) :=
        .marker (List.cons_subset.mpr ⟨GateCall.target_mem hcontrol, List.nil_subset _⟩)
      refine ⟨rfl, fun stage hstage => ?_⟩
      simp only [List.mem_cons, List.not_mem_nil, or_false] at hstage
      rcases hstage with rfl | rfl | rfl | rfl
      · exact .pass 1 hcontrol htarget hparams hp
      · exact hflip
      · exact .pass (-1) hcontrol htarget hparams hp
      · exact hflip
  | flux =>
    obtain ⟨a, b, p, ha, hb, hp, rfl⟩ := FluxPulse.of_synthesize hs
    exact hdefer (.flux ha hb hparams hp)
  | phase =>
    obtain ⟨q, theta, hq, rfl⟩ := PhaseShift.of_synthesize hs
    exact hdefer (.phase hq)
  | delay =>
    obtain ⟨q, duration, hq, hduration, rfl⟩ := Delay.of_synthesize hs
    exact hdefer (.delay hq hduration)
  | barrier =>
    obtain rfl := Barrier.of_synthesize hs
    exact hdefer .barrier

/-- **Every synthesis is made of these stages**, under every calibration, and has nothing pending. -/
theorem Extended.parts {l : Lowerer α} (h : Extended l.registry)
    (hres : l.resolve call.slot = .ok params) (hs : l.registry.synthesize call params = .ok s) :
    s.pending = [] ∧ ∀ stage ∈ s.stages, Part call params stage := by
  obtain ⟨d, hget, -⟩ := Except.bind_eq_ok.mp (id hs)
  have hd := Registry.get_eq_ok.mp hget
  cases d with
  | compound signature steps =>
    rw [Registry.synthesize_compound hd, Registry.markers_eq_ok] at hs
    obtain ⟨calls, hcalls, rfl⟩ := hs
    refine ⟨rfl, fun stage hstage => ?_⟩
    obtain ⟨x, hx, rfl⟩ := List.mem_map.mp hstage
    obtain ⟨step, -, hbind⟩ := Except.exists_of_mem_result hcalls hx
    exact .marker (Step.targets_subset hbind)
  | primitive schema procedure =>
    rw [Registry.synthesize_primitive hd] at hs
    have hvalid := Registry.Builder.validate_of_checkDefinition (h.of_get? hd).2
    have hresolved : schema.resolve call.key (l.calibration call.slot) = .ok params :=
      (Registry.resolve_primitive hd _).symm.trans hres
    exact primitives_parts (h.primitive_mem hd) rfl
      ⟨ParamSchema.validate_eq_ok.mp hvalid, _, hresolved⟩ hs

/-- **A primitive gate without overrides** passes all checks as soon as its call fits its signature, and its
procedure reads the defaults of its schema. -/
theorem Extended.primitive_ready {l : Lowerer α} (h : Extended l.registry) {schema : ParamSchema α}
    {procedure : Procedure α} (hmem : (call.key, .primitive schema procedure) ∈ definitions (α := α))
    (hcheck : procedure.signature.check call = .ok ()) (hcal : l.calibration call.slot = ∅) :
    ∃ params, l.registry.checkCall call = .ok (.primitive schema procedure) ∧
      l.resolve call.slot = .ok params ∧ schema.resolve call.key ∅ = .ok params ∧
      (∀ s ∈ schema, params.values[s.name]? = s.default?) ∧
      l.registry.synthesize call params = procedure.synthesize call params := by
  have hget := h.get?_of_mem hmem
  have hvalid := Registry.Builder.validate_of_checkDefinition (h.of_get? hget).2
  obtain ⟨params, hres, hvalues⟩ :=
    ParamSchema.exists_resolve_empty (ParamSchema.validate_eq_ok.mp hvalid).nodup call.key
  refine ⟨params, Registry.checkCall_eq_ok.mpr ⟨hget, hcheck⟩, ?_, hres, hvalues,
    Registry.synthesize_primitive hget⟩
  rw [Lowerer.resolve, hcal]
  exact (Registry.resolve_primitive hget ∅).trans hres

/-- **A primitive gate without overrides whose synthesis is one computed stage** is planned, and from every
ledger it gives what the stage computes. -/
theorem Extended.defer_ready {l : Lowerer α} (h : Extended l.registry) (hdepth : 0 < l.options.maxDepth)
    {schema : ParamSchema α} {procedure : Procedure α}
    (hmem : (call.key, .primitive schema procedure) ∈ definitions (α := α))
    (hcheck : procedure.signature.check call = .ok ()) (hcal : l.calibration call.slot = ∅)
    (hleaf : procedure.subcalls = []) {f : Params α → Ledger α → List (Instruction α)}
    (hs : ∀ params : Params α, (∀ s ∈ schema, params.values[s.name]? = s.default?) →
      procedure.synthesize call params = .ok (.defer (f params)))
    (hplain : ∀ params ledger, Instruction.Plain (f params ledger)) :
    ∃ params plan, l.resolve call.slot = .ok params ∧ schema.resolve call.key ∅ = .ok params ∧
      (∀ s ∈ schema, params.values[s.name]? = s.default?) ∧ l.plan call = .ok plan ∧
      ∀ ledger, l.Expansion call ledger (f params ledger) (ledger.applyAll (f params ledger)) := by
  obtain ⟨params, hready, hres, hdefaults, hvalues, hsynthesize⟩ := h.primitive_ready hmem hcheck hcal
  rw [hs params hvalues] at hsynthesize
  obtain ⟨plan, hplan⟩ := Lowerer.exists_plan_of_treePlan
    (Lowerer.treePlan_leaf hready hleaf hres hsynthesize 0) hdepth
  exact ⟨params, plan, hres, hdefaults, hvalues, hplan, fun ledger =>
    Lowerer.expansion_of_defer hres hsynthesize (hplain params ledger)⟩

/-- No stage computes a marker. -/
theorem Part.plain {f : Ledger α → List (Instruction α)} (h : Part call params (.deferred f))
    (ledger : Ledger α) : Instruction.Plain (f ledger) := by
  have hone : ∀ i : Instruction α, i.isExpand = false → Instruction.Plain [i] := by
    intro i hi j hj
    rw [List.mem_singleton.mp hj]
    exact hi
  cases h with
  | rotation => exact DriveRotation.play_plain _ _ ledger
  | readout => exact Readout.play_plain _ _ _ ledger
  | pass => exact CrossResonance.pass_plain _ _ _ _ ledger
  | flux => exact FluxPulse.play_plain _ _ _ ledger
  | phase => exact hone _ rfl
  | delay => exact hone _ rfl
  | barrier => exact Barrier.align_plain _ ledger

/-- **Only a measurement writes a bit.** -/
theorem Part.writes (h : Part call params stage) : (∀ ledger, bits (stage.block ledger) = []) ∨
    ∃ q choice p, call.key = .plain "Measure" ∧ Readout.BitChoice.ofCall call = .ok choice ∧
      stage = .deferred (Readout.play p choice q) := by
  cases h with
  | readout hkey _ hchoice => exact Or.inr ⟨_, _, _, hkey, hchoice, rfl⟩
  | pass =>
    refine Or.inl fun ledger => Instruction.bits_eq_nil fun task hmem => ?_
    obtain ⟨q, -, ⟨w, h⟩ | h | ⟨value, h⟩⟩ := CrossResonance.of_mem_pass hmem <;> cases h
  | barrier =>
    refine Or.inl fun ledger => Instruction.bits_eq_nil fun task hmem => ?_
    obtain ⟨q, -, hq⟩ := Barrier.of_mem_align hmem
    cases hq
  | marker | rotation | flux | phase | delay => exact Or.inl fun ledger => rfl

/-- **What holds of the blocks of every stage** holds of those of a lowerer. -/
theorem Extended.givesBlocks_of_resolve {l : Lowerer α} (h : Extended l.registry)
    {C : GateCall α → Prop} {B : Ledger α → List (Instruction α) → Prop}
    (hB : ∀ call params stage, C call → l.resolve call.slot = .ok params → Part call params stage →
      ∀ ledger, B ledger (stage.block ledger)) : l.GivesBlocks C B := by
  intro call params s hcall hres hs
  obtain ⟨hpending, hparts⟩ := h.parts hres hs
  refine ⟨hpending, fun stage hstage ledger => ?_⟩
  have hpart := hparts stage hstage
  refine ⟨hB call params stage hcall hres hpart ledger, ?_⟩
  rintro f rfl
  exact hpart.plain ledger

/-- The same, whatever the calibration is. -/
theorem Extended.givesBlocks {l : Lowerer α} (h : Extended l.registry) {C : GateCall α → Prop}
    {B : Ledger α → List (Instruction α) → Prop}
    (hB : ∀ call params stage, C call → Part call params stage →
      ∀ ledger, B ledger (stage.block ledger)) : l.GivesBlocks C B :=
  h.givesBlocks_of_resolve fun call params stage hcall _ => hB call params stage hcall

/-- **What holds of every instruction of every stage** holds of all instructions of an expansion. -/
theorem Extended.forall_mem {l : Lowerer α} (h : Extended l.registry) {C : GateCall α → Prop}
    (hC : l.Inherited C) {P : Instruction α → Prop}
    (hP : ∀ call params stage, C call → Part call params stage →
      ∀ ledger, ∀ i ∈ stage.block ledger, P i)
    {is : List (Instruction α)} {ledger final : Ledger α} (hcall : C call)
    (hexp : l.Expansion call ledger is final) : ∀ i ∈ is, P i := by
  have hblocks := hexp.inBlocks (B := fun _ block => ∀ i ∈ block, P i) (h.givesBlocks hP) hcall
    (hexp.inherits hC hcall)
  exact hblocks.join (fun _ => List.forall_mem_nil _) fun _ _ _ his hjs =>
    List.forall_mem_append.mpr ⟨his, hjs⟩

end StandardGates

end PulseControl
