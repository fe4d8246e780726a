import PulseControl.Lowering.Plan
import PulseControl.Proofs.Registry.Building
import PulseControl.Proofs.Registry.Declared
import PulseControl.Proofs.StandardGates.Syntheses

/-!
# The standard library is well-declared

Only one of the standard procedures gives markers at all, the echoed cross resonance, and it declares the
gate that it flips the control with. Compound gates, which declare all that they expand to, can be added
at will.

* `PulseControl.StandardGates.Extended` – a registry of the library and any further compound gates;
* `PulseControl.StandardGates.Extended.wellDeclared` – such a registry is well-declared.
-/

namespace PulseControl

variable {α : Type}

/-! ### Stages that give no markers -/

/-- None of some instructions is a marker. -/
def Instruction.Plain (is : List (Instruction α)) : Prop := ∀ i ∈ is, i.isExpand = false

theorem Synthesis.not_canEmit_empty {x : GateCall α} :
    ¬(∅ : Synthesis α).CanEmit (.expand x) := fun h => by
  obtain ⟨stage, hmem, -⟩ := h.mem
  cases hmem

/-- A stage whose instructions are never markers. -/
theorem Stage.not_canEmit_deferred {f : Ledger α → List (Instruction α)}
    (hf : ∀ l, Instruction.Plain (f l)) {x : GateCall α} :
    ¬(Stage.deferred f).CanEmit (.expand x) := by
  rintro ⟨l, hl⟩
  cases hf l _ hl

theorem Synthesis.not_canEmit_defer {f : Ledger α → List (Instruction α)}
    (hf : ∀ l, Instruction.Plain (f l)) {x : GateCall α} :
    ¬(Synthesis.defer f).CanEmit (.expand x) := fun h => by
  obtain ⟨stage, hmem, hx⟩ := h.mem
  obtain rfl := List.mem_singleton.mp hmem
  exact Stage.not_canEmit_deferred hf hx

variable [Scalar α] {call x : GateCall α} {params : Params α} {s : Synthesis α}

/-! ### The procedures -/

theorem DriveRotation.play_plain (p : Pulse α) (q : Qubit) (l : Ledger α) :
    Instruction.Plain (p.play q l) := by
  intro i hi
  simp only [Pulse.play, List.mem_cons, List.not_mem_nil, or_false] at hi
  rcases hi with rfl | rfl <;> rfl

theorem DriveRotation.no_marker (h : DriveRotation.procedure.synthesize call params = .ok s) :
    ¬s.CanEmit (.expand x) := by
  obtain ⟨q, theta, phi, pulse, -, -, ⟨-, rfl⟩ | ⟨-, rfl⟩⟩ := of_synthesize h
  · exact Synthesis.not_canEmit_empty
  · exact Synthesis.not_canEmit_defer fun l => play_plain pulse q l

theorem Readout.play_plain (p : Pulse α) (choice : BitChoice) (q : Qubit) (l : Ledger α) :
    Instruction.Plain (play p choice q l) := by
  intro i hi
  rcases of_mem_play hi with ⟨w, rfl⟩ | rfl | ⟨bit, -, rfl⟩ | rfl | rfl <;> rfl

theorem Readout.no_marker (h : Readout.procedure.synthesize call params = .ok s) :
    ¬s.CanEmit (.expand x) := by
  obtain ⟨q, choice, pulse, -, -, -, rfl⟩ := of_synthesize h
  exact Synthesis.not_canEmit_defer fun l => play_plain pulse choice q l

theorem FluxPulse.play_plain (p : Pulse α) (a b : Qubit) (l : Ledger α) :
    Instruction.Plain (play p a b l) := by
  intro i hi
  simp only [FluxPulse.play, List.mem_cons, List.not_mem_nil, or_false] at hi
  rcases hi with rfl | rfl | rfl | rfl | rfl | rfl | rfl <;> rfl

theorem FluxPulse.no_marker (h : FluxPulse.procedure.synthesize call params = .ok s) :
    ¬s.CanEmit (.expand x) := by
  obtain ⟨a, b, pulse, -, -, -, rfl⟩ := of_synthesize h
  exact Synthesis.not_canEmit_defer fun l => play_plain pulse a b l

theorem PhaseShift.no_marker (h : PhaseShift.procedure.synthesize call params = .ok s) :
    ¬s.CanEmit (.expand x) := by
  obtain ⟨q, theta, -, rfl⟩ := of_synthesize h
  exact Synthesis.not_canEmit_defer fun l i hi => by rw [List.mem_singleton.mp hi]; rfl

theorem Delay.no_marker (h : Delay.procedure.synthesize call params = .ok s) :
    ¬s.CanEmit (.expand x) := by
  obtain ⟨q, duration, -, -, rfl⟩ := of_synthesize h
  exact Synthesis.not_canEmit_defer fun l i hi => by rw [List.mem_singleton.mp hi]; rfl

theorem Barrier.align_plain (qs : List Qubit) (l : Ledger α) : Instruction.Plain (align qs l) := by
  intro i hi
  obtain ⟨q, -, rfl⟩ := of_mem_align hi
  rfl

theorem Barrier.no_marker (h : Barrier.procedure.synthesize call params = .ok s) :
    ¬s.CanEmit (.expand x) := by
  obtain rfl := of_synthesize h
  exact Synthesis.not_canEmit_defer fun l => align_plain call.targets l

/-- One pass of a cross resonance is made of pulses, cursors and phases. -/
theorem CrossResonance.pass_plain (p : Pulse α) (control target : Qubit) (sign : α) (l : Ledger α) :
    Instruction.Plain (pass p control target sign l) := by
  intro i hi
  obtain ⟨q, -, ⟨w, rfl⟩ | rfl | ⟨value, rfl⟩⟩ := of_mem_pass hi <;> rfl

theorem CrossResonance.direct_no_marker
    (h : (CrossResonance.procedure .direct).synthesize call params = .ok s) :
    ¬s.CanEmit (.expand x) := by
  obtain ⟨pulse, control, target, -, -, -, rfl⟩ := of_synthesize_direct h
  exact Synthesis.not_canEmit_defer fun l => pass_plain pulse control target 1 l

/-- The markers of the echoed variant flip the control, as its step says. -/
theorem CrossResonance.echoed_declares
    (h : (CrossResonance.procedure .echoed).synthesize call params = .ok s)
    (hx : s.CanEmit (.expand x)) :
    (GateDefinition.primitive schema (CrossResonance.procedure .echoed)).Declares call x := by
  obtain ⟨pulse, control, target, -, hcontrol, -, rfl⟩ := of_synthesize_echoed h
  have hflip : x = ⟨echoGate, [control], []⟩ := by
    obtain ⟨stage, hmem, hstage⟩ := hx.mem
    simp only [Synthesis.allStages, List.map_nil, List.nil_append, List.mem_cons,
      List.not_mem_nil, or_false] at hmem
    rcases hmem with rfl | rfl | rfl | rfl
    · exact absurd hstage (Stage.not_canEmit_deferred fun l => pass_plain _ _ _ _ l)
    · cases hstage
      rfl
    · exact absurd hstage (Stage.not_canEmit_deferred fun l => pass_plain _ _ _ _ l)
    · cases hstage
      rfl
  refine ⟨⟨echoGate, [0], []⟩, List.mem_singleton.mpr rfl, ?_⟩
  rw [hflip, Step.bind, List.mapM_cons, hcontrol]
  rfl

namespace StandardGates

/-- The markers of every primitive gate of the library are declared. -/
theorem primitives_declare {key : GateKey} {schema : ParamSchema α} {procedure : Procedure α}
    (hmem : (key, .primitive schema procedure) ∈ primitives (α := α))
    (hs : procedure.synthesize call params = .ok s) (hx : s.CanEmit (.expand x)) :
    (GateDefinition.primitive schema procedure).Declares call x := by
  cases standard_of_mem hmem with
  | rotation => exact absurd hx (DriveRotation.no_marker hs)
  | readout => exact absurd hx (Readout.no_marker hs)
  | cross key variant =>
    cases variant with
    | direct => exact absurd hx (CrossResonance.direct_no_marker hs)
    | echoed => exact CrossResonance.echoed_declares hs hx
  | flux => exact absurd hx (FluxPulse.no_marker hs)
  | phase => exact absurd hx (PhaseShift.no_marker hs)
  | delay => exact absurd hx (Delay.no_marker hs)
  | barrier => exact absurd hx (Barrier.no_marker hs)

/-- The other gates of the library are compound. -/
theorem composites_compound {entry : GateKey × GateDefinition α} (h : entry ∈ Composites.all) :
    entry.2.isCompound = true := by
  have hall : (Composites.all (α := α)).all (fun entry => entry.2.isCompound) = true := rfl
  exact List.all_eq_true.mp hall entry h

/-! ### Extensions of the library -/

/-- **A registry of the library and further compound gates**, as many of those tried as are accepted. -/
def Extended (r : Registry α) : Prop :=
  ∃ b compounds, builder = .ok b ∧ (∀ entry ∈ compounds, entry.2.isCompound = true) ∧
    (b.attemptAll compounds).build = .ok r

/-- The registry of the library alone is one of these. -/
theorem extended_of_registry {r : Registry α} (h : registry = .ok r) : Extended r := by
  obtain ⟨b, hb, hbuild⟩ := Except.bind_eq_ok.mp h
  exact ⟨b, [], hb, List.forall_mem_nil _, hbuild⟩

/-- Such a registry is built like any other one. -/
theorem Extended.built {r : Registry α} (h : Extended r) :
    ∃ attempts, ((∅ : Registry.Builder α).attemptAll attempts).build = .ok r := by
  obtain ⟨b, compounds, hb, -, hr⟩ := h
  exact ⟨_, Registry.Builder.attemptAll_of_register_ok hb compounds ▸ hr⟩

/-- Every gate of such a registry is one of the library or a further compound gate, and it has passed
the checks of a definition on its own. -/
theorem Extended.of_get? {r : Registry α} (h : Extended r) {key : GateKey} {d : GateDefinition α}
    (hd : r.get? key = some d) : (d.isCompound = true ∨ (key, d) ∈ primitives) ∧
      Registry.Builder.checkDefinition key d = .ok () := by
  obtain ⟨b, compounds, hb, hcompounds, hr⟩ := h
  have hbuild := Registry.Builder.attemptAll_of_register_ok hb compounds ▸ hr
  refine ⟨?_, Registry.Builder.checked_of_build_get? hbuild hd⟩
  rcases List.mem_append.mp (Registry.Builder.mem_of_build_get? hbuild hd) with hlib | hmore
  · rcases List.mem_append.mp hlib with hprim | hcomp
    · exact Or.inr hprim
    · exact Or.inl (composites_compound hcomp)
  · exact Or.inl (hcompounds _ hmore)

/-- The primitive gates of such a registry are those of the library. -/
theorem Extended.primitive_mem {r : Registry α} (h : Extended r) {key : GateKey}
    {schema : ParamSchema α} {procedure : Procedure α}
    (hd : r.get? key = some (.primitive schema procedure)) :
    (key, .primitive schema procedure) ∈ primitives := by
  rcases (h.of_get? hd).1 with hcompound | hmem
  · cases hcompound
  · exact hmem

/-- Such a registry has every gate of the library, as it is there. -/
theorem Extended.get?_of_mem {r : Registry α} (h : Extended r) {key : GateKey}
    {definition : GateDefinition α} (hmem : (key, definition) ∈ definitions) :
    r.get? key = some definition := by
  obtain ⟨b, compounds, hb, -, hr⟩ := h
  exact Registry.Builder.get?_of_register_ok hb hr hmem

/-- Such a registry measures as the library does. -/
theorem Extended.get?_measure {r : Registry α} (h : Extended r) :
    r.get? (.plain "Measure") = some (.primitive Readout.schema Readout.procedure) :=
  h.get?_of_mem (by simp [definitions, primitives])

/-- **The library with any further compound gates is well-declared.** -/
theorem Extended.wellDeclared {r : Registry α} (h : Extended r) : r.WellDeclared := by
  intro call overrides schema procedure params s hd _ hs x hx
  exact primitives_declare (h.primitive_mem hd) hs hx

/-- The registry of the library over floats. -/
def floatRegistry : Registry Float := (registry (α := Float)).toOption.getD ⟨∅, []⟩

theorem registry_float : registry (α := Float) = .ok floatRegistry := by
  have hok : (registry (α := Float)).isOk = true := by decide +kernel
  obtain ⟨r, hr⟩ := Except.isOk_eq_true.mp hok
  rw [floatRegistry, hr]
  rfl

theorem extended_floatRegistry : Extended floatRegistry := extended_of_registry registry_float

/-- The lowerer of the library over floats, without calibration. -/
def floatLowerer : Lowerer Float := ⟨floatRegistry, fun _ => ∅, {}⟩

/-- The controlled flip of one qubit by another. -/
def controlledFlip : GateCall Float := ⟨.plain "CX", ["Q0", "Q1"], []⟩

theorem exists_plan_controlledFlip : ∃ plan, floatLowerer.plan controlledFlip = .ok plan := by
  have hok : (floatLowerer.plan controlledFlip).isOk = true := by decide +kernel
  exact Except.isOk_eq_true.mp hok

end StandardGates

end PulseControl
