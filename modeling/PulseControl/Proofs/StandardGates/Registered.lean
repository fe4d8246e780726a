import PulseControl.Proofs.Param.Declarations
import PulseControl.Proofs.RealScalar
import PulseControl.Proofs.StandardGates.Declared

/-!
# The library over the real numbers

A registry is evaluated in order to see that it is built, but real numbers cannot be evaluated. They are
only looked at where the defaults of a schema are checked, and this is proved for all exact scalars.
What is left of the building of the registry is about keys, positions and names.

* `PulseControl.DriveRotation.wellFormed` and the like – the schemas of the library over exact scalars;
* `PulseControl.Registry.Builder.linked` – registration without the checks of a definition on its own;
* `PulseControl.StandardGates.realLowerer` – the library over the real numbers, without calibration.
-/

namespace PulseControl

/-! ### The schemas of the library -/

section Schemas

variable {α : Type} [ExactScalar α]

open ParamSpec

theorem DriveRotation.wellFormed (gate : GateKey) : (schema (α := α)).WellFormed gate := by
  have hnodup : ((schema (α := α)).map ParamSpec.name).Nodup := show reads.Nodup by decide
  have hphase : (-1 : α) ≤ 1 := by linarith [zero_lt_one (α := α)]
  refine ParamSchema.wellFormed_of_sound hnodup ?_ gate
  simp only [schema, List.forall_mem_cons]
  exact ⟨sound_oneOf _ (by decide), (sound_table _ zero_le_one).inUnit _,
    (sound_table _ zero_le_one).inUnit _, (sound_table _ hphase).inUnit _,
    (sound_float _ _).inUnit _, sound_float _ _, sound_float _ _, (sound_float _ _).inUnit _,
    sound_refusingNegative _ _ le_rfl, List.forall_mem_nil _⟩

theorem Readout.schema_names : (schema (α := α)).map ParamSpec.name =
    ["duration", "amp", "frequency", "bias", "signal", "weight", "phi", "threshold", "ring_up_amp",
      "ring_up_time", "ring_edge_time"] :=
  rfl

theorem Readout.wellFormed (gate : GateKey) : (schema (α := α)).WellFormed gate := by
  have hnodup : ((schema (α := α)).map ParamSpec.name).Nodup := by
    rw [schema_names]
    decide
  refine ParamSchema.wellFormed_of_sound hnodup ?_ gate
  simp only [schema, List.forall_mem_cons]
  exact ⟨sound_refusingNegative _ _ (ExactScalar.literal_nonneg _ _ _), (sound_float _ _).inUnit _,
    (sound_float _ _).inUnit _, (sound_float _ _).inUnit _, sound_oneOf _ (by decide),
    sound_str _ _, (sound_float _ _).inUnit _, (sound_float _ _).inUnit _,
    (sound_float _ _).inUnit _, sound_refusingNegative _ _ (ExactScalar.literal_nonneg _ _ _),
    sound_refusingNegative _ _ (ExactScalar.literal_nonneg _ _ _), List.forall_mem_nil _⟩

theorem CrossResonance.wellFormed (gate : GateKey) : (schema (α := α)).WellFormed gate := by
  have hnodup : ((schema (α := α)).map ParamSpec.name).Nodup := show reads.Nodup by decide
  refine ParamSchema.wellFormed_of_sound hnodup ?_ gate
  simp only [schema, List.forall_mem_cons]
  exact ⟨sound_refusingNegative _ _ (ExactScalar.literal_nonneg _ _ _), (sound_float _ _).inUnit _,
    sound_oneOf _ (by decide), sound_refusingNegative _ _ (ExactScalar.literal_nonneg _ _ _),
    (sound_float _ _).inUnit _, (sound_float _ _).inUnit _, sound_float _ _, sound_float _ _,
    (sound_float _ _).inUnit _, (sound_float _ _).inUnit _, (sound_float _ _).inUnit _,
    (sound_float _ _).inUnit _, sound_refusingNegative _ _ le_rfl, List.forall_mem_nil _⟩

theorem FluxPulse.wellFormed (gate : GateKey) : (schema (α := α)).WellFormed gate := by
  have hnodup : ((schema (α := α)).map ParamSpec.name).Nodup := show reads.Nodup by decide
  refine ParamSchema.wellFormed_of_sound hnodup ?_ gate
  simp only [schema, List.forall_mem_cons]
  exact ⟨sound_refusingNegative _ _ (ExactScalar.literal_nonneg _ _ _), (sound_float _ _).inUnit _,
    (sound_float _ _).inUnit _, (sound_float _ _).inUnit _, sound_refusingNegative _ _ le_rfl,
    sound_refusingNegative _ _ le_rfl, (sound_float _ _).inUnit _, (sound_float _ _).inUnit _,
    List.forall_mem_nil _⟩

/-- **Every schema of the library is well-formed** over exact scalars. -/
theorem StandardGates.Standard.wellFormed {key : GateKey} {schema : ParamSchema α}
    {procedure : Procedure α} (h : Standard key schema procedure) (gate : GateKey) :
    schema.WellFormed gate := by
  cases h with
  | rotation => exact DriveRotation.wellFormed gate
  | readout => exact Readout.wellFormed gate
  | cross => exact CrossResonance.wellFormed gate
  | flux => exact FluxPulse.wellFormed gate
  | phase | delay | barrier => exact ⟨List.nodup_nil, List.forall_mem_nil _⟩

end Schemas

/-! ### Registration -/

namespace Registry.Builder

variable {α : Type}

/-- Registration of a definition that is taken to be sound on its own. -/
def linked (b : Builder α) (key : GateKey) (definition : GateDefinition α) :
    Except (GateError α) (Builder α) :=
  if b.contains key then .error (.duplicateGate key)
  else
    match b.link DependencyGraph.path? key definition.subcalls with
    | (.error e, _) => .error e
    | (.ok (), b) => .ok (b.insert key definition)

/-- The checks of a definition on its own apart from that of its schema. -/
def checkNames (key : GateKey) (definition : GateDefinition α) : Bool :=
  (match definition with
    | .primitive schema procedure => procedure.reads.all fun name => ParamSchema.declares schema name
    | .compound .. => true) &&
  (checkSteps key definition.signature definition.subcalls).isOk

variable [Scalar α]

theorem checkDefinition_of_names {key : GateKey} {definition : GateDefinition α}
    (h : checkNames key definition = true)
    (hschema : ∀ schema ∈ definition.schema?, schema.WellFormed key) :
    checkDefinition key definition = .ok () := by
  obtain ⟨hreads, hsteps⟩ := Bool.and_eq_true_iff.mp h
  obtain ⟨⟨⟩, hsteps⟩ := Except.isOk_eq_true.mp hsteps
  refine Except.bind_eq_ok.mpr ⟨(), ?_, hsteps⟩
  cases definition with
  | compound signature steps => rfl
  | primitive schema procedure =>
    have hvalid := ParamSchema.validate_eq_ok.mpr (hschema schema rfl)
    have hdeclared : procedure.reads.find? (fun name => !ParamSchema.declares schema name) = none := by
      rw [List.find?_eq_none]
      intro name hname
      simp [List.all_eq_true.mp hreads name hname]
    refine Except.bind_eq_ok.mpr ⟨(), hvalid, ?_⟩
    rw [hdeclared]
    rfl

theorem register_eq_linked {b : Builder α} {key : GateKey} {definition : GateDefinition α}
    (h : checkDefinition key definition = .ok ()) :
    b.register key definition = b.linked key definition := by
  rw [register, attempt, attemptWith, linked, h]
  cases hfree : b.contains key with
  | true => rfl
  | false =>
    dsimp only [Bool.false_eq_true, if_false]
    cases b.link DependencyGraph.path? key definition.subcalls with
    | mk outcome b' => cases outcome <;> rfl

/-- Definitions that are sound on their own are registered by linking them. -/
theorem register_all_eq_linked {definitions : List (GateKey × GateDefinition α)}
    (h : ∀ entry ∈ definitions, checkDefinition entry.1 entry.2 = .ok ()) (b : Builder α) :
    definitions.foldlM (fun b entry => b.register entry.1 entry.2) b =
      definitions.foldlM (fun b entry => b.linked entry.1 entry.2) b := by
  induction definitions generalizing b with
  | nil => rfl
  | cons entry rest ih =>
    obtain ⟨hentry, hrest⟩ := List.forall_mem_cons.mp h
    rw [List.foldlM_cons, List.foldlM_cons, register_eq_linked hentry]
    exact congrArg _ (funext fun b => ih hrest b)

end Registry.Builder

namespace StandardGates

open Registry

/-- Every gate of the library over the real numbers is sound on its own. -/
theorem checked_real :
    ∀ entry ∈ definitions (α := ℝ), Builder.checkDefinition entry.1 entry.2 = .ok () := by
  have hnames : (definitions (α := ℝ)).all (fun entry => Builder.checkNames entry.1 entry.2) = true := by
    decide +kernel
  intro entry hentry
  refine Builder.checkDefinition_of_names (List.all_eq_true.mp hnames entry hentry) ?_
  intro schema hschema
  obtain ⟨key, definition⟩ := entry
  rcases List.mem_append.mp hentry with hprim | hcomp
  · cases definition with
    | compound signature steps => cases hschema
    | primitive schema' procedure =>
      obtain rfl : schema' = schema := Option.some.inj hschema
      exact (standard_of_mem hprim).wellFormed key
  · have hcompound := composites_compound hcomp
    cases definition with
    | compound signature steps => cases hschema
    | primitive schema' procedure => cases hcompound

theorem exists_registry_real : ∃ r, registry (α := ℝ) = .ok r := by
  have hlinked : ((definitions (α := ℝ)).foldlM (fun b entry => b.linked entry.1 entry.2) ∅ >>=
      Builder.build).isOk = true := by
    decide +kernel
  rw [registry, builder, Builder.register_all_eq_linked checked_real]
  exact Except.isOk_eq_true.mp hlinked

/-- The lowerer of the library over the real numbers, without calibration. -/
noncomputable def realLowerer : Lowerer ℝ :=
  ⟨(registry (α := ℝ)).toOption.getD ⟨∅, []⟩, fun _ => ∅, {}⟩

theorem extended_realLowerer : Extended realLowerer.registry := by
  obtain ⟨r, hr⟩ := exists_registry_real
  rw [realLowerer, hr]
  exact extended_of_registry hr

end StandardGates

end PulseControl
