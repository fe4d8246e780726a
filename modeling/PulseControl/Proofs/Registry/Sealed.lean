import PulseControl.Proofs.Gate.Signature
import PulseControl.Proofs.Registry.Building
import PulseControl.Proofs.Registry.Declared

/-!
# Built registries are sealed

Nothing in a built registry leads outside of it. Three checks see to that, each at its own time: a
definition is accepted only if its steps point at targets that every call has, and only if they close no
circle; that every step goes to a gate, with numbers of targets and arguments that this gate takes, is
checked when the registry is built. Together they leave nothing for the checks of a call to find below a
call that has passed them: what a call is bound to below it always fits the gate that it goes to.

* `PulseControl.GateError.isMisfit`, `PulseControl.NoMisfit` – the errors that this is about;
* `PulseControl.Registry.Sealed`, `PulseControl.Registry.sealed_of_build` – what the three checks leave;
* `PulseControl.Registry.Sealed.takes_of_bind` – what a call is bound to below it fits;
* `PulseControl.Registry.Above`, `PulseControl.Registry.Sealed.length_lt_size` – gates nested inside of
  each other are fewer than there are gates.
-/

namespace PulseControl

variable {α τ : Type}

/-! ### Misfits -/

/-- **An error about how gates go together**: a gate that there is not, a number of targets or arguments
that a gate does not take, or gates inside gates beyond the limit. -/
def GateError.isMisfit : GateError α → Bool
  | .unknownGate _ | .targetCount .. | .argumentCount .. | .expansionDepth .. => true
  | _ => false

/-- A computation that may fail, but not for how gates go together. -/
abbrev NoMisfit (x : Except (GateError α) τ) : Prop := x.FailsOnly fun e => e.isMisfit = false

theorem NoMisfit.ne_error {x : Except (GateError α) τ} {e : GateError α} (h : NoMisfit x)
    (hmisfit : e.isMisfit = true) : x ≠ .error e := fun he =>
  Bool.false_ne_true ((h e he).symm.trans hmisfit)

theorem GateCall.noMisfit_target {call : GateCall α} {i : Nat} (h : i < call.targets.length) :
    NoMisfit (call.target i) := by
  rw [target, List.getElem?_eq_getElem h]
  exact .ok _

theorem GateCall.noMisfit_argument {call : GateCall α} {i : Nat} (h : i < call.args.length) :
    NoMisfit (call.argument i) := by
  rw [argument, List.getElem?_eq_getElem h]
  exact .ok _

section Checks

variable [Scalar α]

/-- Where the numbers of targets and arguments are right, only the targets and arguments themselves can
be wrong. -/
theorem Signature.noMisfit_check {s : Signature} {call : GateCall α}
    (htargets : s.arity.accepts call.targets.length = true)
    (hargs : s.acceptsArgs call.args.length = true) : NoMisfit (s.check call) := by
  rw [check, if_neg (not_not.mpr htargets)]
  split
  · exact .error rfl
  · rw [if_neg (not_not.mpr hargs)]
    split
    · exact .error rfl
    · exact .ok _

/-- A step binds to a call that has all of its positions, unless an argument has no value. -/
theorem Step.noMisfit_bind {s : Step α} {call : GateCall α} {signature : Signature}
    (h : ∀ i ∈ s.targets, i < call.targets.length) : NoMisfit (s.bind call signature) := by
  have harg : ∀ e ∈ s.args, NoMisfit (bindArg s.key signature.argNames call e) := by
    intro e _
    rw [bindArg]
    split
    · exact .ok _
    · exact .error rfl
  refine (Except.FailsOnly.mapM fun i hi => GateCall.noMisfit_target (h i hi)).bind fun targets _ => ?_
  exact (Except.FailsOnly.mapM harg).bind fun args _ => .ok _

/-- A step binds to a call of its gate, with as many targets and arguments as the step has. -/
theorem Step.of_bind {s : Step α} {call x : GateCall α} {signature : Signature}
    (h : s.bind call signature = .ok x) :
    x.key = s.key ∧ x.targets.length = s.targets.length ∧ x.args.length = s.args.length := by
  simp only [Step.bind, Except.bind_eq_ok, Except.mapM_eq_ok] at h
  obtain ⟨targets, htargets, args, hargs, h⟩ := h
  obtain rfl := Except.ok.inj h
  exact ⟨rfl, htargets.length_eq.symm, hargs.length_eq.symm⟩

/-- Overrides that are refused are refused for themselves. -/
theorem ParamSchema.noMisfit_resolve (schema : ParamSchema α) (gate : GateKey)
    (overrides : ParamValues α) : NoMisfit (schema.resolve gate overrides) := by
  have hcheck : ∀ (s : ParamSpec α) v, NoMisfit (s.check gate v) := by
    intro s v
    rw [ParamSpec.check]
    split
    · exact .error rfl
    · split
      · exact .error rfl
      · exact .ok _
  have hvalue : ∀ s, NoMisfit (valueOf? gate overrides s) := by
    intro s
    rw [valueOf?]
    split
    · exact (hcheck s _).map some
    · exact .ok _
  have hcollect : ∀ values, NoMisfit (collect gate overrides schema values) := by
    induction schema with
    | nil => exact fun values => .ok values
    | cons s rest ih =>
      intro values
      rw [collect]
      refine (hvalue s).bind fun v _ => ?_
      split
      · exact ih _
      · exact ih _
  rw [resolve]
  split
  · exact .error rfl
  · exact (hcollect ∅).map _

end Checks

namespace Registry

/-! ### What a built registry has -/

/-- A gate is registered that takes these numbers of targets and arguments. -/
def Takes (r : Registry α) (key : GateKey) (targets args : Nat) : Prop :=
  ∃ d, r.get? key = some d ∧ d.signature.arity.accepts targets = true ∧
    d.signature.acceptsArgs args = true

/-- The gate `x` has a step that goes to the gate `y`. -/
def Refers (r : Registry α) (x y : GateKey) : Prop :=
  ∃ d, r.get? x = some d ∧ ∃ s ∈ d.subcalls, s.key = y

/-- **A sealed registry.** -/
structure Sealed (r : Registry α) : Prop where
  /-- Every gate counts. -/
  listed : ∀ key d, r.get? key = some d → key ∈ r.order
  /-- Steps point at targets that every call has. -/
  positions : ∀ key d, r.get? key = some d → ∀ s ∈ d.subcalls, ∀ i ∈ s.targets,
    i < d.signature.arity.least
  /-- Steps go to gates that take them. -/
  references : ∀ key d, r.get? key = some d → ∀ s ∈ d.subcalls,
    r.Takes s.key s.targets.length s.args.length
  /-- Steps close no circle. -/
  acyclic : Acyclic r.Refers

namespace Builder

theorem lt_least_of_checkStep {key : GateKey} {signature : Signature} {s : Step α}
    (h : checkStep key signature s = .ok ()) {i : Nat} (hi : i ∈ s.targets) :
    i < signature.arity.least := by
  rw [checkStep] at h
  split at h
  · exact nomatch h
  · next hnone =>
    have hle := List.find?_eq_none.mp hnone i hi
    rwa [decide_eq_true_eq, Nat.not_le] at hle

theorem takes_of_checkReference {b : Builder α} {r : Registry α} (hr : r.entries = b.entries)
    {s : Step α} (h : b.checkReference s = .ok ()) :
    r.Takes s.key s.targets.length s.args.length := by
  rw [checkReference] at h
  split at h
  · exact nomatch h
  · next d hd =>
    dsimp only at h
    split at h
    · exact nomatch h
    · next htargets =>
      split at h
      · exact nomatch h
      · next hargs =>
        refine ⟨d, ?_, not_not.mp htargets, not_not.mp hargs⟩
        rwa [Registry.get?, hr]

end Builder

variable [Scalar α] {r : Registry α}

/-- **A built registry is sealed**, whatever attempts to register gates were made. -/
theorem sealed_of_build {attempts : List (GateKey × GateDefinition α)}
    (hr : ((∅ : Builder α).attemptAll attempts).build = .ok r) : r.Sealed := by
  obtain ⟨hentries, horder⟩ := Builder.build_eq_ok hr
  have hholds := Builder.attemptAll_holds Builder.holds_empty attempts
  have hget : ∀ {key d}, r.get? key = some d ↔ (key, d) ∈ (∅ : Builder α).accepted attempts := by
    intro key d
    rw [get?, hentries]
    exact hholds.entries key d
  have hlisted : ∀ key d, r.get? key = some d → key ∈ r.order := by
    intro key d hd
    rw [horder, hholds.order]
    exact List.mem_map_of_mem (hget.mp hd)
  refine ⟨hlisted, fun key d hd s hs i hi => ?_, fun key d hd s hs => ?_, ?_⟩
  · -- checked when the definition was accepted
    have hcheck := Builder.checked_of_build_get? hr hd
    obtain ⟨_, -, hsteps⟩ := Except.bind_eq_ok.mp hcheck
    exact Builder.lt_least_of_checkStep (Except.forM_eq_ok.mp hsteps s hs) hi
  · -- checked when the registry was built
    obtain ⟨_, hall, -⟩ := Except.bind_eq_ok.mp hr
    have hkey := Except.forM_eq_ok.mp hall key (horder ▸ hlisted key d hd)
    rw [get?, hentries] at hd
    rw [hd] at hkey
    exact Builder.takes_of_checkReference hentries (Except.forM_eq_ok.mp hkey s hs)
  · have hrefers : r.Refers = DependsOn ((∅ : Builder α).accepted attempts) := by
      funext x y
      simp only [Refers, DependsOn, hget]
    exact hrefers ▸ hholds.acyclic

/-! ### Calls that fit -/

variable {call x : GateCall α} {d : GateDefinition α} {s : Step α}

/-- A call that passes its check fits the gate that it goes to. -/
theorem takes_of_checkCall (h : r.checkCall call = .ok d) :
    r.Takes call.key call.targets.length call.args.length := by
  obtain ⟨hd, hcheck⟩ := checkCall_eq_ok.mp h
  obtain ⟨htargets, -, hargs, -⟩ := Signature.check_eq_ok.mp hcheck
  exact ⟨d, hd, htargets, hargs⟩

/-- The check of a call that fits can fail, but not for how gates go together. -/
theorem Takes.noMisfit_checkCall
    (h : r.Takes call.key call.targets.length call.args.length) : NoMisfit (r.checkCall call) := by
  obtain ⟨d, hd, htargets, hargs⟩ := h
  rw [checkCall, get_eq_ok.mpr hd]
  exact (Signature.noMisfit_check htargets hargs).bind fun _ _ => .ok _

/-- So can the resolution of the parameters of a gate. -/
theorem Takes.noMisfit_resolve {key : GateKey} {targets args : Nat} (h : r.Takes key targets args)
    (overrides : ParamValues α) : NoMisfit (r.resolve key overrides) := by
  obtain ⟨d, hd, -⟩ := h
  rw [resolve, get_eq_ok.mpr hd, Except.bind_ok]
  rcases d with ⟨schema, procedure⟩ | ⟨signature, steps⟩
  · exact schema.noMisfit_resolve key overrides
  · dsimp only
    split
    · exact .error rfl
    · exact .ok _

/-- The check of a call does not ask how deep the call is nested. -/
theorem checkCall_ne_expansionDepth (r : Registry α) (call : GateCall α) (gate : GateKey)
    (limit : Nat) : r.checkCall call ≠ .error (.expansionDepth gate limit) := by
  have hget : (r.get call.key).FailsOnly (· ≠ .expansionDepth gate limit) := by
    rw [get]
    split
    · exact .ok _
    · exact .error (by simp)
  have hcheck : ∀ d : GateDefinition α,
      (d.signature.check call).FailsOnly (· ≠ .expansionDepth gate limit) := by
    intro d
    rw [Signature.check]
    split
    · exact .error (by simp)
    split
    · exact .error (by simp)
    split
    · exact .error (by simp [Signature.argumentCountError])
    split
    · exact .error (by simp)
    · exact .ok _
  intro h
  rw [checkCall] at h
  exact hget.bind (fun d _ => (hcheck d).bind fun _ _ => .ok _) _ h rfl

/-- The steps of a gate bind to a call that fits, unless an argument has no value. -/
theorem Sealed.noMisfit_bind (h : r.Sealed) (hd : r.get? call.key = some d)
    (hcall : r.Takes call.key call.targets.length call.args.length) (hs : s ∈ d.subcalls) :
    NoMisfit (s.bind call d.signature) := by
  obtain ⟨d', hd', htargets, -⟩ := hcall
  obtain rfl : d = d' := Option.some.inj (hd.symm.trans hd')
  exact Step.noMisfit_bind fun i hi =>
    Nat.lt_of_lt_of_le (h.positions call.key d hd s hs i hi) (Arity.least_le_of_accepts htargets)

/-- **What a call is bound to below it fits** the gate that it goes to. -/
theorem Sealed.takes_of_bind (h : r.Sealed) (hd : r.get? call.key = some d) (hs : s ∈ d.subcalls)
    (hx : s.bind call d.signature = .ok x) :
    r.Takes x.key x.targets.length x.args.length := by
  obtain ⟨hkey, htargets, hargs⟩ := Step.of_bind hx
  rw [hkey, htargets, hargs]
  exact h.references call.key d hd s hs

/-- The markers of a compound gate can all be bound to a call that fits, unless an argument has no
value. -/
theorem Sealed.noMisfit_markers (h : r.Sealed) {signature : Signature} {steps : List (Step α)}
    (hd : r.get? call.key = some (.compound signature steps))
    (hcall : r.Takes call.key call.targets.length call.args.length) :
    NoMisfit (markers call signature steps) :=
  (Except.FailsOnly.mapM fun _ hs => h.noMisfit_bind hd hcall hs).bind fun _ _ => .ok _

/-! ### Gates inside gates -/

/-- **The gates that a gate is nested in**: all different, all registered, and each leads to it. -/
structure Above (r : Registry α) (keys : List GateKey) (key : GateKey) : Prop where
  nodup : keys.Nodup
  listed : keys ⊆ r.order
  leads : ∀ k ∈ keys, Relation.TransGen r.Refers k key

variable {keys : List GateKey} {key inner : GateKey}

omit [Scalar α] in
theorem above_nil (r : Registry α) (key : GateKey) : r.Above [] key :=
  ⟨List.nodup_nil, List.nil_subset _, fun _ hk => nomatch hk⟩

omit [Scalar α] in
/-- A gate is not nested in itself. -/
theorem Above.not_mem (h : r.Above keys key) (hr : r.Sealed) : key ∉ keys := fun hmem =>
  hr.acyclic key (h.leads key hmem)

omit [Scalar α] in
/-- A gate that a nested gate refers to is nested in one gate more. -/
theorem Above.cons (h : r.Above keys key) (hr : r.Sealed) (hkey : key ∈ r.order)
    (hinner : r.Refers key inner) : r.Above (key :: keys) inner where
  nodup := List.nodup_cons.mpr ⟨h.not_mem hr, h.nodup⟩
  listed := List.cons_subset.mpr ⟨hkey, h.listed⟩
  leads k hk := by
    rcases List.mem_cons.mp hk with rfl | hk
    · exact .single hinner
    · exact .tail (h.leads k hk) hinner

omit [Scalar α] in
/-- **A gate is nested in fewer gates than there are.** -/
theorem Sealed.length_lt_size (hr : r.Sealed) (h : r.Above keys key) (hkey : key ∈ r.order) :
    keys.length < r.size := by
  have hnodup : (key :: keys).Nodup := List.nodup_cons.mpr ⟨h.not_mem hr, h.nodup⟩
  have hsubset : key :: keys ⊆ r.order := List.cons_subset.mpr ⟨hkey, h.listed⟩
  exact (List.subperm_of_subset hnodup hsubset).length_le

end Registry

end PulseControl
