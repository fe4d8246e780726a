import PulseControl.Proofs.Param.Admission
import PulseControl.Proofs.Registry.Building

/-!
# Resolving twice

An override is turned into a value of the declared type before it is resolved, a default is taken as it is
declared. The two differ in one case only: a whole number may stand where a float is declared. As an
override it is resolved to a float, as a default it stays whole, although the check of the schema has seen
it as a float. So a resolved value can lack its declared type, and then to resolve the resolved values once
more changes it. A third time changes nothing.

* `PulseControl.ParamSpec.StaysWhole` – a default that is resolved to a whole number instead of a float;
* `PulseControl.ParamSchema.Filled` – values that could have been resolved;
* `PulseControl.ParamSchema.resolve_values` – resolved values resolved once more;
* `PulseControl.ParamSchema.resolution_keeps_whole_defaults` – all this for the schemas that are
  registered.
-/

namespace PulseControl

variable {α : Type} [Scalar α]

/-- **A value as one of a declared type** is the value itself, or the float of a whole number. -/
theorem ParamValue.coerce?_eq_some {v w : ParamValue α} {declared : ParamType} :
    v.coerce? declared = some w ↔ v.type = declared ∧ w = v ∨
      declared = .float ∧ ∃ i, v = .int i ∧ w = .float (Scalar.ofInt i.toInt) := by
  constructor
  · intro h
    rw [coerce?.eq_def] at h
    split at h
    · next i =>
      cases h
      exact Or.inr ⟨rfl, i, rfl, rfl⟩
    · split at h
      · next htype =>
        cases h
        exact Or.inl ⟨htype, rfl⟩
      · cases h
  · rintro (⟨htype, rfl⟩ | ⟨rfl, i, rfl, rfl⟩)
    · exact coerce?_of_type htype
    · rfl

namespace ParamSpec

variable {s : ParamSpec α} {gate : GateKey} {overrides : ParamValues α} {v w : ParamValue α}

omit [Scalar α] in
/-- **A default that stays whole**: it is a whole number where a float is declared, and no override takes
its place. -/
def StaysWhole (s : ParamSpec α) (overrides : ParamValues α) : Prop :=
  s.type = .float ∧ (∃ i, s.default? = some (.int i)) ∧ overrides[s.name]? = none

/-- The check says nothing about the gate, unless the value is refused. -/
theorem check_under (h : s.check gate v = .ok w) (gate' : GateKey) : s.check gate' v = .ok w :=
  check_eq_ok.mpr (check_eq_ok.mp h)

/-- What is found for a declaration passes its check, and it is what the check makes of it unless it is a
default that stays whole. -/
theorem check_of_valueOf? (hdefault : ∀ d, s.default? = some d → ∃ w, s.check gate d = .ok w)
    (h : ParamSchema.valueOf? gate overrides s = .ok (some v)) :
    ∃ w, s.check gate v = .ok w ∧ (w = v ↔ ¬s.StaysWhole overrides) := by
  rw [ParamSchema.valueOf?] at h
  split at h
  · next u hu =>
    obtain ⟨w, hw, hv⟩ := Except.map_eq_ok.mp h
    cases hv
    refine ⟨v, check_of_check hw, iff_of_true rfl ?_⟩
    rintro ⟨-, -, hnone⟩
    cases hu.symm.trans hnone
  · next hnone =>
    have hdef : s.default? = some v := Except.ok.inj h
    obtain ⟨w, hw⟩ := hdefault v hdef
    refine ⟨w, hw, ?_⟩
    rcases ParamValue.coerce?_eq_some.mp (check_eq_ok.mp hw).1 with
      ⟨htype, rfl⟩ | ⟨hfloat, i, rfl, rfl⟩
    · refine iff_of_true rfl ?_
      rintro ⟨hfloat, ⟨i, hi⟩, -⟩
      cases hdef.symm.trans hi
      cases htype.trans hfloat
    · refine iff_of_false ?_ (not_not.mpr ⟨hfloat, ⟨i, hdef⟩, hnone⟩)
      rintro ⟨⟩

end ParamSpec

namespace ParamSchema

variable {schema : ParamSchema α} {gate : GateKey} {overrides values : ParamValues α}
  {params : Params α} {s : ParamSpec α}

/-- Well-formed is well-formed under any gate. -/
theorem WellFormed.under (h : schema.WellFormed gate) (gate' : GateKey) :
    schema.WellFormed gate' where
  nodup := h.nodup
  defaults s hs d hd := (h.defaults s hs d hd).imp fun _ hw => ParamSpec.check_under hw gate'

omit [Scalar α] in
theorem declares_eq_true {name : String} :
    schema.declares name = true ↔ name ∈ schema.map ParamSpec.name := by
  simp [declares]

/-- **What resolution is**: every override is declared, and the values that are found for the
declarations are collected. -/
theorem resolve_eq_ok : schema.resolve gate overrides = .ok params ↔
    (∀ name ∈ overrides, name ∈ schema.map ParamSpec.name) ∧
      collect gate overrides schema ∅ = .ok params.values ∧ params.gate = gate := by
  have hdeclared : overrides.keys.find? (fun name => !schema.declares name) = none ↔
      ∀ name ∈ overrides, name ∈ schema.map ParamSpec.name := by
    simp only [List.find?_eq_none, Std.ExtTreeMap.mem_keys, Bool.not_eq_true', Bool.not_eq_false,
      declares_eq_true]
  rw [resolve, ← hdeclared]
  split
  · next name hname => simp [hname]
  · next hnone =>
    rw [Except.map_eq_ok]
    constructor
    · rintro ⟨values, hvalues, rfl⟩
      exact ⟨hnone, hvalues, rfl⟩
    · rintro ⟨-, hvalues, rfl⟩
      exact ⟨params.values, hvalues, rfl⟩

/-- **Values that could have been resolved**: none without a declaration, all pass the check, and where
there is none there is no default either. -/
structure Filled (schema : ParamSchema α) (gate : GateKey) (values : ParamValues α) : Prop where
  declared : ∀ name ∈ values, name ∈ schema.map ParamSpec.name
  checked : ∀ s ∈ schema, ∀ v, values[s.name]? = some v → ∃ w, s.check gate v = .ok w
  absent : ∀ s ∈ schema, values[s.name]? = none → s.default? = none

/-- Resolved values could have been resolved. -/
theorem filled_of_resolve (hschema : schema.WellFormed gate)
    (h : schema.resolve gate overrides = .ok params) : schema.Filled gate params.values where
  declared name hname := by
    obtain ⟨s, hs, rfl, -⟩ := (mem_values_of_resolve hschema.nodup h).mp hname
    exact List.mem_map_of_mem hs
  checked s hs v hv := checked_of_resolve hschema h hs hv
  absent s hs hnone := by
    by_contra hdefault
    have hmem := (mem_values_of_resolve hschema.nodup h).mpr
      ⟨s, hs, rfl, Or.inr (Option.isSome_iff_ne_none.mpr hdefault)⟩
    rw [Std.ExtTreeMap.mem_iff_isSome_getElem?, hnone] at hmem
    cases hmem

/-- **Values that could have been resolved are resolved** to what the checks make of them. -/
theorem Filled.exists_resolve (h : schema.Filled gate values)
    (hnodup : (schema.map ParamSpec.name).Nodup) :
    ∃ params, schema.resolve gate values = .ok params ∧ ∀ s ∈ schema,
      params.values[s.name]? = values[s.name]?.bind fun v => v.coerce? s.type := by
  have hvalue : ∀ s ∈ schema,
      valueOf? gate values s = .ok (values[s.name]?.bind fun v => v.coerce? s.type) := by
    intro s hs
    rw [valueOf?]
    cases hv : values[s.name]? with
    | none => exact congrArg Except.ok (h.absent s hs hv)
    | some v =>
      obtain ⟨w, hw⟩ := h.checked s hs v hv
      exact Except.map_eq_ok.mpr ⟨w, hw, (ParamSpec.check_eq_ok.mp hw).1.symm⟩
  obtain ⟨result, hresult⟩ := exists_collect (fun s hs => ⟨_, hvalue s hs⟩) ∅
  have hresolve : schema.resolve gate values = .ok ⟨gate, result⟩ :=
    resolve_eq_ok.mpr ⟨h.declared, hresult, rfl⟩
  refine ⟨_, hresolve, fun s hs => ?_⟩
  exact Except.ok.inj ((valueOf?_of_resolve hresolve hnodup hs).symm.trans (hvalue s hs))

/-- Resolved parameters are the same if the values of the declared ones are. -/
theorem eq_of_resolve {params' : Params α} {overrides' : ParamValues α}
    (h : schema.resolve gate overrides = .ok params)
    (h' : schema.resolve gate overrides' = .ok params')
    (hvalues : ∀ s ∈ schema, params.values[s.name]? = params'.values[s.name]?) :
    params = params' := by
  have hgate : params.gate = params'.gate :=
    (resolve_eq_ok.mp h).2.2.trans (resolve_eq_ok.mp h').2.2.symm
  have hsame : params.values = params'.values := by
    refine Std.ExtTreeMap.ext_getElem? fun name => ?_
    by_cases hname : name ∈ schema.map ParamSpec.name
    · obtain ⟨s, hs, rfl⟩ := List.mem_map.mp hname
      exact hvalues s hs
    · rw [resolve_of_not_mem h hname, resolve_of_not_mem h' hname]
  cases params
  cases params'
  cases hgate
  cases hsame
  rfl

/-- **What values that could have been resolved are resolved to** stays as it is: it has the declared
types. -/
theorem Filled.resolve_again (hfilled : schema.Filled gate values) (hschema : schema.WellFormed gate)
    (h : schema.resolve gate values = .ok params) :
    schema.resolve gate params.values = .ok params := by
  have hnodup := hschema.nodup
  obtain ⟨params', h', hvalues⟩ := hfilled.exists_resolve hnodup
  obtain rfl : params' = params := Except.ok.inj (h'.symm.trans h)
  obtain ⟨again, hagain, hvalues'⟩ := (filled_of_resolve hschema h).exists_resolve hnodup
  have hsame : again = params' := eq_of_resolve hagain h fun s hs => by
    rw [hvalues' s hs, hvalues s hs]
    cases values[s.name]? with
    | none => rfl
    | some v =>
      cases hw : v.coerce? s.type with
      | none => simp [hw]
      | some w => simpa [hw] using ParamValue.coerce?_of_type (ParamValue.type_of_coerce? hw)
  rwa [hsame] at hagain

/-- A resolved value against what the check of its declaration makes of it. -/
theorem check_of_resolve (hschema : schema.WellFormed gate)
    (h : schema.resolve gate overrides = .ok params) (hs : s ∈ schema) {v : ParamValue α}
    (hv : params.values[s.name]? = some v) :
    ∃ w, s.check gate v = .ok w ∧ (w = v ↔ ¬s.StaysWhole overrides) :=
  ParamSpec.check_of_valueOf? (hschema.defaults s hs)
    ((valueOf?_of_resolve h hschema.nodup hs).trans (congrArg Except.ok hv))

/-- **Resolved values resolved once more** are the same exactly if no default stays whole, and the
outcome is not changed any more. -/
theorem resolve_values (hschema : schema.WellFormed gate)
    (h : schema.resolve gate overrides = .ok params) :
    ∃ again, schema.resolve gate params.values = .ok again ∧
      (again = params ↔ ∀ s ∈ schema, ¬s.StaysWhole overrides) ∧
      schema.resolve gate again.values = .ok again := by
  have hnodup := hschema.nodup
  have hfilled := filled_of_resolve hschema h
  obtain ⟨again, hagain, hvalues⟩ := hfilled.exists_resolve hnodup
  have hpresent : ∀ s ∈ schema, s.StaysWhole overrides → ∃ i, params.values[s.name]? = some (.int i) := by
    rintro s hs ⟨-, ⟨i, hi⟩, hnone⟩
    have hfound := valueOf?_of_resolve h hnodup hs
    rw [valueOf?, hnone] at hfound
    exact ⟨i, (Except.ok.inj hfound).symm.trans hi⟩
  refine ⟨again, hagain, ⟨?_, fun hnone => eq_of_resolve hagain h fun s hs => ?_⟩, ?_⟩
  · rintro rfl s hs hstays
    obtain ⟨i, hi⟩ := hpresent s hs hstays
    have hvalue := hvalues s hs
    rw [hi, Option.bind_some, hstays.1] at hvalue
    cases hvalue
  · rw [hvalues s hs]
    cases hv : params.values[s.name]? with
    | none => rfl
    | some v =>
      obtain ⟨w, hw, hsame⟩ := check_of_resolve hschema h hs hv
      obtain rfl := hsame.mpr (hnone s hs)
      exact (ParamSpec.check_eq_ok.mp hw).1
  · exact hfilled.resolve_again hschema hagain

/-! ### Schemas that are registered -/

/-- **Resolution keeps whole defaults.** For every schema that is registered and all overrides that are
resolved under it: the names with a value are those of the parameters with an override or a default. Every
value is of its declared type and admitted by its declaration, but for defaults that are whole numbers
where floats are declared and that no override replaces; these are resolved as they stand, and it is their
floats that are admitted. To resolve the values once more succeeds. It gives the same exactly if there are
no such defaults, and whatever it gives is not changed any more. -/
theorem resolution_keeps_whole_defaults {b b' : Registry.Builder α} {key : GateKey}
    {procedure : Procedure α} (hregister : b.register key (.primitive schema procedure) = .ok b')
    (h : schema.resolve gate overrides = .ok params) :
    (∀ name, name ∈ params.values ↔
      ∃ s ∈ schema, s.name = name ∧ (name ∈ overrides ∨ s.default?.isSome = true)) ∧
    (∀ s ∈ schema, ∀ v, params.values[s.name]? = some v →
      (¬s.StaysWhole overrides → v.type = s.type ∧ s.Admits v) ∧
      (s.StaysWhole overrides →
        ∃ i, v = .int i ∧ s.type = .float ∧ s.Admits (.float (Scalar.ofInt i.toInt)))) ∧
    ∃ again, schema.resolve gate params.values = .ok again ∧
      (again = params ↔ ∀ s ∈ schema, ¬s.StaysWhole overrides) ∧
      schema.resolve gate again.values = .ok again := by
  have hattempt : (b.attempt key (.primitive schema procedure)).1 = .ok () := by
    rw [Registry.Builder.register] at hregister
    split at hregister
    · next b₁ heq => rw [heq]
    · cases hregister
  have hvalid := Registry.Builder.validate_of_checkDefinition
    (Registry.Builder.checkDefinition_of_attempt hattempt)
  have hschema : schema.WellFormed gate := (validate_eq_ok.mp hvalid).under gate
  refine ⟨fun name => mem_values_of_resolve hschema.nodup h, fun s hs v hv => ?_,
    resolve_values hschema h⟩
  obtain ⟨w, hw, hsame⟩ := check_of_resolve hschema h hs hv
  obtain ⟨hcoerce, hfault⟩ := ParamSpec.check_eq_ok.mp hw
  have hadmits := ParamSpec.fault?_eq_none.mp hfault
  refine ⟨fun hnot => ?_, fun hstays => ?_⟩
  · obtain rfl := hsame.mpr hnot
    exact ⟨ParamValue.type_of_coerce? hcoerce, hadmits⟩
  · rcases ParamValue.coerce?_eq_some.mp hcoerce with ⟨-, rfl⟩ | ⟨hfloat, i, rfl, rfl⟩
    · exact absurd hstays (hsame.mp rfl)
    · exact ⟨i, rfl, hfloat, hadmits⟩

/-- A float whose default is a whole number. -/
def wholeGain : ParamSchema Float :=
  [{ name := "gain", type := .float, default? := some (.int 3) }]

/-- A gate that has it as its parameter. -/
def gainDefinition : GateDefinition Float :=
  .primitive wholeGain ⟨Signature.qubits 1, [], [], fun _ _ => .ok ∅⟩

/-- The whole default is registered and resolved as it stands. Resolved once more it is a float. -/
theorem whole_gain_resolved_twice :
    ((∅ : Registry.Builder Float).register (.plain "A") gainDefinition).isOk = true ∧
      ∃ params again, wholeGain.resolve (.plain "A") ∅ = .ok params ∧
        params.values["gain"]? = some (.int 3) ∧
        wholeGain.resolve (.plain "A") params.values = .ok again ∧ again ≠ params ∧
        wholeGain.resolve (.plain "A") again.values = .ok again := by
  have haccepted : ((∅ : Registry.Builder Float).register (.plain "A") gainDefinition).isOk = true := by
    decide +kernel
  obtain ⟨b', hb'⟩ := Except.isOk_eq_true.mp haccepted
  have hnodup : (wholeGain.map ParamSpec.name).Nodup := by decide
  obtain ⟨params, hparams, hdefaults⟩ := exists_resolve_empty hnodup (.plain "A")
  have hvalue := hdefaults _ (List.mem_singleton.mpr rfl)
  obtain ⟨-, -, again, hagain, hsame, hfixed⟩ := resolution_keeps_whole_defaults hb' hparams
  refine ⟨haccepted, params, again, hparams, hvalue, hagain, fun heq => ?_, hfixed⟩
  exact hsame.mp heq _ (List.mem_singleton.mpr rfl)
    ⟨rfl, ⟨3, rfl⟩, Std.ExtTreeMap.getElem?_empty⟩

end ParamSchema

end PulseControl
