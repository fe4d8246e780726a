import PulseControl.Proofs.Param.Admission

/-!
# Parameters that are always there

A reader fails for a name without a value, for a value of another type, for a string that names nothing
and for rows that are no table. None of this happens after a resolution, for a parameter that is declared
with a default: it has a value, be it the override or the default, and that value has passed the check of
its declaration.

* `PulseControl.ParamSchema.provides`, `PulseControl.ParamSchema.offers` – the parameters with a default,
  and the strings among them that are restricted to some choices;
* `PulseControl.ParamSchema.exists_admitted` – the value that such a parameter has;
* `PulseControl.ParamSchema.exists_float` and the like – each reader gives something.
-/

namespace PulseControl

variable {α : Type}

namespace ParamSchema

/-- Whether a parameter of a name and a type is declared with a default. -/
def provides (schema : ParamSchema α) (name : String) (type : ParamType) : Bool :=
  schema.any fun s => s.name = name && s.type = type && s.default?.isSome

/-- Whether a string of a name is declared with a default and restricted to these choices. -/
def offers (schema : ParamSchema α) (name : String) (choices : List String) : Bool :=
  schema.any fun s =>
    s.name = name && s.type = .str && s.default?.isSome && s.choices = some choices

theorem exists_of_provides {schema : ParamSchema α} {name : String} {type : ParamType}
    (h : schema.provides name type = true) :
    ∃ s ∈ schema, s.name = name ∧ s.type = type ∧ s.default?.isSome = true := by
  obtain ⟨s, hs, hspec⟩ := List.any_eq_true.mp h
  simp only [Bool.and_eq_true, decide_eq_true_eq] at hspec
  exact ⟨s, hs, hspec.1.1, hspec.1.2, hspec.2⟩

theorem exists_of_offers {schema : ParamSchema α} {name : String} {choices : List String}
    (h : schema.offers name choices = true) :
    ∃ s ∈ schema, s.name = name ∧ s.type = .str ∧ s.default?.isSome = true ∧
      s.choices = some choices := by
  obtain ⟨s, hs, hspec⟩ := List.any_eq_true.mp h
  simp only [Bool.and_eq_true, decide_eq_true_eq] at hspec
  exact ⟨s, hs, hspec.1.1.1, hspec.1.1.2, hspec.1.2, hspec.2⟩

variable [Scalar α] {schema : ParamSchema α} {gate : GateKey} {overrides : ParamValues α}
  {params : Params α}

/-- **A parameter with a default has a value**, and as one of its declared type the declaration admits
it. -/
theorem exists_admitted (hschema : schema.WellFormed gate)
    (h : schema.resolve gate overrides = .ok params) {s : ParamSpec α} (hs : s ∈ schema)
    (hdefault : s.default?.isSome = true) :
    ∃ v w, params.values[s.name]? = some v ∧ v.coerce? s.type = some w ∧ s.Admits w := by
  have hmem : s.name ∈ params.values :=
    (mem_values_of_resolve hschema.nodup h).mpr ⟨s, hs, rfl, Or.inr hdefault⟩
  obtain ⟨v, hv⟩ := Option.isSome_iff_exists.mp (Std.ExtTreeMap.mem_iff_isSome_getElem?.mp hmem)
  obtain ⟨w, hw⟩ := checked_of_resolve hschema h hs hv
  obtain ⟨hcoerce, hfault⟩ := ParamSpec.check_eq_ok.mp hw
  exact ⟨v, w, hv, hcoerce, ParamSpec.fault?_eq_none.mp hfault⟩

/-- A float is read, from a whole number if need be. -/
theorem exists_float (hschema : schema.WellFormed gate)
    (h : schema.resolve gate overrides = .ok params) (name : String)
    (hname : schema.provides name .float = true) : ∃ x, params.float name = .ok x := by
  obtain ⟨s, hs, rfl, htype, hdefault⟩ := exists_of_provides hname
  obtain ⟨v, w, hv, hcoerce, -⟩ := exists_admitted hschema h hs hdefault
  rw [htype] at hcoerce
  rw [Params.float, hv]
  cases v with
  | float x => exact ⟨x, rfl⟩
  | int i => exact ⟨Scalar.ofInt i.toInt, rfl⟩
  | bool | str | table => cases hcoerce

/-- A string is read. -/
theorem exists_str (hschema : schema.WellFormed gate)
    (h : schema.resolve gate overrides = .ok params) (name : String)
    (hname : schema.provides name .str = true) : ∃ text, params.str name = .ok text := by
  obtain ⟨s, hs, rfl, htype, hdefault⟩ := exists_of_provides hname
  obtain ⟨v, w, hv, hcoerce, -⟩ := exists_admitted hschema h hs hdefault
  rw [htype] at hcoerce
  rw [Params.str, hv]
  cases v with
  | str text => exact ⟨text, rfl⟩
  | bool | int | float | table => cases hcoerce

/-- **What a restricted string names is found** wherever each of its choices names something. -/
theorem exists_named (hschema : schema.WellFormed gate)
    (h : schema.resolve gate overrides = .ok params) (name : String) {choices : List String}
    (hname : schema.offers name choices = true) {τ : Type} {read : String → Except (ValueFault α) τ}
    (hread : ∀ text ∈ choices, ∃ x, read text = .ok x) : ∃ x, params.named name read = .ok x := by
  obtain ⟨s, hs, rfl, htype, hdefault, hchoices⟩ := exists_of_offers hname
  obtain ⟨v, w, hv, hcoerce, hadmits⟩ := exists_admitted hschema h hs hdefault
  rw [htype] at hcoerce
  cases v with
  | str text =>
    cases hcoerce
    obtain ⟨x, hx⟩ := hread text (hadmits choices hchoices)
    refine ⟨x, ?_⟩
    rw [Params.named, Params.str_of_value _ hv, Except.bind_ok, hx]
  | bool | int | float | table => cases hcoerce

/-- A pulse shape is found. -/
theorem exists_pulseShape (hschema : schema.WellFormed gate)
    (h : schema.resolve gate overrides = .ok params) (name : String)
    (hname : schema.offers name PulseShape.names = true) :
    ∃ shape, params.pulseShape name = .ok shape := by
  refine exists_named hschema h name hname fun text htext => ?_
  obtain ⟨shape, rfl⟩ : ∃ shape : PulseShape, text = shape.name := by
    simp only [PulseShape.names, List.mem_cons, List.not_mem_nil, or_false] at htext
    rcases htext with rfl | rfl | rfl <;> exact ⟨_, rfl⟩
  refine ⟨shape, ?_⟩
  rw [PulseShape.parse, PulseShape.ofName?_name]
  rfl

/-- An edge shape is found. -/
theorem exists_edgeShape (hschema : schema.WellFormed gate)
    (h : schema.resolve gate overrides = .ok params) (name : String)
    (hname : schema.offers name [EdgeShape.cos.name, EdgeShape.linear.name] = true) :
    ∃ shape, params.edgeShape name = .ok shape := by
  refine exists_named hschema h name hname fun text htext => ?_
  obtain ⟨shape, rfl⟩ : ∃ shape : EdgeShape, text = shape.name := by
    simp only [List.mem_cons, List.not_mem_nil, or_false] at htext
    rcases htext with rfl | rfl <;> exact ⟨_, rfl⟩
  refine ⟨shape, ?_⟩
  rw [EdgeShape.parse, EdgeShape.ofName?_name]
  rfl

/-- The rows of a table are one. -/
theorem exists_table (hschema : schema.WellFormed gate)
    (h : schema.resolve gate overrides = .ok params) (name : String)
    (hname : schema.provides name .table = true) : ∃ t, params.table name = .ok t := by
  obtain ⟨s, hs, rfl, htype, hdefault⟩ := exists_of_provides hname
  obtain ⟨v, w, hv, hcoerce, hadmits⟩ := exists_admitted hschema h hs hdefault
  rw [htype] at hcoerce
  cases v with
  | table rows =>
    cases hcoerce
    obtain ⟨t, ht⟩ := Table.exists_ofRows_iff.mpr hadmits
    exact ⟨t, Params.table_of_value _ hv ht⟩
  | bool | int | float | str => cases hcoerce

end ParamSchema

end PulseControl
