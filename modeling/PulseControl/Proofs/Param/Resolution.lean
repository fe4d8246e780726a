import PulseControl.Param.Access
import PulseControl.Proofs.Except

/-!
# What resolved parameters are

Overrides are checked when parameters are resolved, defaults when their schema is registered. So every
value that a procedure can read passes the check of its declaration, wherever it comes from.

* `PulseControl.ParamSchema.WellFormed`, `PulseControl.ParamSchema.validate_eq_ok` – what the check of a
  schema says;
* `PulseControl.ParamSchema.collect_of_mem` – where the value of a parameter comes from;
* `PulseControl.ParamSchema.mem_values_of_resolve` – the names that have a value;
* `PulseControl.ParamSchema.checked_of_resolve` – every resolved value passes the check of its
  declaration;
* `PulseControl.ParamSchema.not_neg_of_resolve` – where negative numbers are refused, none is read;
* `PulseControl.Params.float_of_value` and the like – reading a value that is known.
-/

namespace PulseControl

variable {α : Type} [Scalar α]

/-! ### The check of a value -/

/-- A value that has the declared type stays as it is. -/
theorem ParamValue.coerce?_of_type {v : ParamValue α} {declared : ParamType}
    (h : v.type = declared) : v.coerce? declared = some v := by
  subst h
  cases v <;> rfl

namespace ParamSpec

variable {s : ParamSpec α} {gate : GateKey} {v w : ParamValue α}

theorem check_eq_ok : s.check gate v = .ok w ↔ v.coerce? s.type = some w ∧ s.fault? w = none := by
  rw [check]
  cases hv : v.coerce? s.type with
  | none => simp
  | some v' =>
    dsimp only
    cases hf : s.fault? v' with
    | none =>
      simp only [Except.ok.injEq, Option.some.injEq]
      constructor
      · rintro rfl
        exact ⟨rfl, hf⟩
      · exact fun h => h.1
    | some fault =>
      refine iff_of_false (fun h => nomatch h) ?_
      rintro ⟨h, hnone⟩
      cases h
      cases hf.symm.trans hnone

/-- **A checked value passes the check again**, and stays as it is. -/
theorem check_of_check (h : s.check gate v = .ok w) : s.check gate w = .ok w := by
  obtain ⟨hcoerce, hfault⟩ := check_eq_ok.mp h
  exact check_eq_ok.mpr
    ⟨ParamValue.coerce?_of_type (ParamValue.type_of_coerce? hcoerce), hfault⟩

theorem fault?_float_eq_none {x : α} :
    s.fault? (.float x) = none ↔ Scalar.isFinite x = true ∧ ¬(s.nonNegative = true ∧ x < 0) := by
  rw [fault?]
  split
  · next hx => exact iff_of_false (fun h => nomatch h) fun h => hx h.1
  · next hx =>
    split
    · next hneg => exact iff_of_false (fun h => nomatch h) fun h => h.2 hneg
    · next hneg => exact iff_of_true rfl ⟨not_not.mp hx, hneg⟩

end ParamSpec

namespace ParamSchema

variable {schema : ParamSchema α} {gate : GateKey} {overrides : ParamValues α} {s : ParamSpec α}

/-! ### The check of a schema -/

/-- **A schema is sound on its own**: no name is declared twice, and every default passes the check of
its declaration. -/
structure WellFormed (schema : ParamSchema α) (gate : GateKey) : Prop where
  nodup : (schema.map ParamSpec.name).Nodup
  defaults : ∀ s ∈ schema, ∀ d, s.default? = some d → ∃ w, s.check gate d = .ok w

theorem validateFrom_eq_ok {seen : List String} :
    validateFrom gate seen schema = .ok () ↔
      (∀ s ∈ schema, s.name ∉ seen) ∧ schema.WellFormed gate := by
  induction schema generalizing seen with
  | nil => exact iff_of_true rfl ⟨List.forall_mem_nil _, List.nodup_nil, List.forall_mem_nil _⟩
  | cons s rest ih =>
    have hcons : validateFrom gate seen (s :: rest) = .ok () ↔ s.name ∉ seen ∧
        (∀ d, s.default? = some d → ∃ w, s.check gate d = .ok w) ∧
          validateFrom gate (s.name :: seen) rest = .ok () := by
      rw [validateFrom]
      by_cases hseen : s.name ∈ seen
      · simp [hseen, throw, throwThe, MonadExceptOf.throw]
      · cases hd : s.default? with
        | none => simp [hseen]
        | some value => cases hc : s.check gate value <;> simp [hseen, hc]
    rw [hcons, ih]
    constructor
    · rintro ⟨hname, hd, hrest, hwell⟩
      refine ⟨fun t ht => ?_, ?_, fun t ht => ?_⟩
      · rcases List.mem_cons.mp ht with rfl | ht
        · exact hname
        · exact fun hmem => hrest t ht (List.mem_cons_of_mem _ hmem)
      · refine List.nodup_cons.mpr ⟨fun hmem => ?_, hwell.nodup⟩
        obtain ⟨t, ht, hsame⟩ := List.mem_map.mp hmem
        exact hrest t ht (hsame ▸ List.mem_cons_self)
      · rcases List.mem_cons.mp ht with rfl | ht
        · exact hd
        · exact hwell.defaults t ht
    · rintro ⟨hnames, hwell⟩
      obtain ⟨hfresh, hnodup⟩ := List.nodup_cons.mp hwell.nodup
      refine ⟨hnames s List.mem_cons_self, hwell.defaults s List.mem_cons_self, fun t ht hmem => ?_,
        hnodup, fun t ht => hwell.defaults t (List.mem_cons_of_mem _ ht)⟩
      rcases List.mem_cons.mp hmem with hsame | hmem
      · exact hfresh (hsame ▸ List.mem_map_of_mem ht)
      · exact hnames t (List.mem_cons_of_mem _ ht) hmem

/-- **What the check of a schema says.** -/
theorem validate_eq_ok : schema.validate gate = .ok () ↔ schema.WellFormed gate := by
  rw [validate, validateFrom_eq_ok]
  exact ⟨fun h => h.2, fun h => ⟨fun s _ => List.not_mem_nil, h⟩⟩

/-! ### Where values come from -/

theorem collect_cons {values result : ParamValues α} {rest : ParamSchema α} :
    collect gate overrides (s :: rest) values = .ok result ↔
      ∃ found, valueOf? gate overrides s = .ok found ∧
        collect gate overrides rest ((found.map (values.insert s.name)).getD values) =
          .ok result := by
  rw [collect, Except.bind_eq_ok]
  refine exists_congr fun found => and_congr_right fun _ => ?_
  cases found <;> rfl

/-- A name that is not declared keeps what it had. -/
theorem collect_of_not_mem {values result : ParamValues α} {name : String}
    (h : collect gate overrides schema values = .ok result)
    (hname : name ∉ schema.map ParamSpec.name) : result[name]? = values[name]? := by
  induction schema generalizing values with
  | nil =>
    cases h
    rfl
  | cons s rest ih =>
    obtain ⟨found, -, hrest⟩ := collect_cons.mp h
    rw [List.map_cons, List.mem_cons, not_or] at hname
    obtain ⟨hne, hname⟩ := hname
    rw [ih hrest hname]
    cases found with
    | none => rfl
    | some v =>
      have hother : compare s.name name ≠ .eq := fun hc =>
        hne (Std.LawfulEqOrd.eq_of_compare hc).symm
      simp only [Option.map_some, Option.getD_some, Std.ExtTreeMap.getElem?_insert, if_neg hother]

/-- **A declared parameter has the value that is found for it**, or keeps what it had. -/
theorem collect_of_mem {values result : ParamValues α}
    (h : collect gate overrides schema values = .ok result)
    (hnodup : (schema.map ParamSpec.name).Nodup) (hs : s ∈ schema) :
    ∃ found, valueOf? gate overrides s = .ok found ∧
      result[s.name]? = found.or values[s.name]? := by
  induction schema generalizing values with
  | nil => cases hs
  | cons t rest ih =>
    obtain ⟨found, hfound, hrest⟩ := collect_cons.mp h
    obtain ⟨hfresh, hnodup⟩ := List.nodup_cons.mp hnodup
    rcases List.mem_cons.mp hs with rfl | hs
    · refine ⟨found, hfound, ?_⟩
      rw [collect_of_not_mem hrest hfresh]
      cases found with
      | none => rfl
      | some v => simp
    · obtain ⟨found', hfound', hvalue⟩ := ih hrest hnodup hs
      refine ⟨found', hfound', ?_⟩
      have hother : compare t.name s.name ≠ .eq := fun hc =>
        hfresh (Std.LawfulEqOrd.eq_of_compare hc ▸ List.mem_map_of_mem hs)
      rw [hvalue]
      cases found with
      | none => rfl
      | some v =>
        simp only [Option.map_some, Option.getD_some, Std.ExtTreeMap.getElem?_insert, if_neg hother]

/-- Resolved values are those that are found for the declared parameters. -/
theorem collect_of_resolve {params : Params α} (h : schema.resolve gate overrides = .ok params) :
    collect gate overrides schema ∅ = .ok params.values := by
  rw [resolve] at h
  split at h
  · cases h
  · obtain ⟨values, hvalues, rfl⟩ := Except.map_eq_ok.mp h
    exact hvalues

/-- **A declared parameter is resolved to the value that is found for it**, or to none. -/
theorem valueOf?_of_resolve {params : Params α} (h : schema.resolve gate overrides = .ok params)
    (hnodup : (schema.map ParamSpec.name).Nodup) (hs : s ∈ schema) :
    valueOf? gate overrides s = .ok params.values[s.name]? := by
  obtain ⟨found, hfound, hvalue⟩ := collect_of_mem (collect_of_resolve h) hnodup hs
  have hempty : (∅ : ParamValues α)[s.name]? = none := Std.ExtTreeMap.getElem?_empty
  rw [hempty, Option.or_none] at hvalue
  rw [hfound, hvalue]

/-- Nothing is resolved that is not declared. -/
theorem resolve_of_not_mem {params : Params α} (h : schema.resolve gate overrides = .ok params)
    {name : String} (hname : name ∉ schema.map ParamSpec.name) : params.values[name]? = none :=
  (collect_of_not_mem (collect_of_resolve h) hname).trans Std.ExtTreeMap.getElem?_empty

/-- **The names that have a value** are those of the parameters with an override or a default. -/
theorem mem_values_of_resolve {params : Params α} (hnodup : (schema.map ParamSpec.name).Nodup)
    (h : schema.resolve gate overrides = .ok params) {name : String} :
    name ∈ params.values ↔
      ∃ s ∈ schema, s.name = name ∧ (name ∈ overrides ∨ s.default?.isSome = true) := by
  have hdeclared : ∀ s ∈ schema,
      (s.name ∈ params.values ↔ s.name ∈ overrides ∨ s.default?.isSome = true) := by
    intro s hs
    have hfound := valueOf?_of_resolve h hnodup hs
    rw [Std.ExtTreeMap.mem_iff_isSome_getElem?, Std.ExtTreeMap.mem_iff_isSome_getElem?]
    rw [valueOf?] at hfound
    split at hfound
    · next u hu =>
      obtain ⟨w, -, hw⟩ := Except.map_eq_ok.mp hfound
      rw [← hw, hu]
      simp
    · next hnone =>
      rw [← Except.ok.inj hfound, hnone]
      simp
  constructor
  · intro hmem
    have hname : name ∈ schema.map ParamSpec.name := by
      by_contra hout
      have hnone := resolve_of_not_mem h hout
      rw [Std.ExtTreeMap.mem_iff_isSome_getElem?, hnone] at hmem
      cases hmem
    obtain ⟨s, hs, rfl⟩ := List.mem_map.mp hname
    exact ⟨s, hs, rfl, (hdeclared s hs).mp hmem⟩
  · rintro ⟨s, hs, rfl, hvalue⟩
    exact (hdeclared s hs).mpr hvalue

/-- Where something is found for every declaration, the values are resolved. -/
theorem exists_collect (h : ∀ s ∈ schema, ∃ found, valueOf? gate overrides s = .ok found)
    (values : ParamValues α) : ∃ result, collect gate overrides schema values = .ok result := by
  induction schema generalizing values with
  | nil => exact ⟨values, rfl⟩
  | cons s rest ih =>
    obtain ⟨⟨found, hfound⟩, hrest⟩ := List.forall_mem_cons.mp h
    obtain ⟨result, hresult⟩ := ih hrest ((found.map (values.insert s.name)).getD values)
    exact ⟨result, collect_cons.mpr ⟨found, hfound, hresult⟩⟩

/-- **Without overrides** a schema resolves to its defaults. -/
theorem exists_resolve_empty (hnodup : (schema.map ParamSpec.name).Nodup) (gate : GateKey) :
    ∃ params, schema.resolve gate ∅ = .ok params ∧
      ∀ s ∈ schema, params.values[s.name]? = s.default? := by
  have hdefault : ∀ s : ParamSpec α, valueOf? gate ∅ s = .ok s.default? := fun s => by
    rw [valueOf?, Std.ExtTreeMap.getElem?_empty]
  obtain ⟨values, hvalues⟩ := exists_collect (fun s (_ : s ∈ schema) => ⟨_, hdefault s⟩) ∅
  have hempty : (∅ : ParamValues α).keys = [] := rfl
  refine ⟨⟨gate, values⟩, ?_, fun s hs => ?_⟩
  · rw [resolve, hempty, List.find?_nil, hvalues]
    rfl
  · obtain ⟨found, hfound, hvalue⟩ := collect_of_mem hvalues hnodup hs
    have hnone : (∅ : ParamValues α)[s.name]? = none := Std.ExtTreeMap.getElem?_empty
    rw [hvalue, hnone, Option.or_none, Except.ok.inj ((hdefault s).symm.trans hfound)]

/-! ### Resolved values -/

variable {params : Params α}

/-- **Every resolved value passes the check of its declaration**, whether it is an override or a
default. -/
theorem checked_of_resolve (hschema : schema.WellFormed gate)
    (h : schema.resolve gate overrides = .ok params) (hs : s ∈ schema) {v : ParamValue α}
    (hv : params.values[s.name]? = some v) : ∃ w, s.check gate v = .ok w := by
  have hfound := valueOf?_of_resolve h hschema.nodup hs
  rw [hv, valueOf?] at hfound
  split at hfound
  · -- an override stands there as it has been checked
    obtain ⟨w, hw, heq⟩ := Except.map_eq_ok.mp hfound
    cases heq
    exact ⟨v, ParamSpec.check_of_check hw⟩
  · exact hschema.defaults s hs v (Except.ok.inj hfound)

/-- A number that is read for a declared float has no fault. -/
theorem fault?_of_resolve (hschema : schema.WellFormed gate)
    (h : schema.resolve gate overrides = .ok params) (hs : s ∈ schema) (htype : s.type = .float)
    {x : α} (hx : params.float s.name = .ok x) : s.fault? (.float x) = none := by
  rw [Params.float] at hx
  split at hx
  · next v hv =>
    cases hx
    obtain ⟨w, hw⟩ := checked_of_resolve hschema h hs hv
    obtain ⟨hcoerce, hfault⟩ := ParamSpec.check_eq_ok.mp hw
    rw [htype] at hcoerce
    cases hcoerce
    exact hfault
  · -- a default that is a whole number is checked as the float that is read
    next i hv =>
    cases hx
    obtain ⟨w, hw⟩ := checked_of_resolve hschema h hs hv
    obtain ⟨hcoerce, hfault⟩ := ParamSpec.check_eq_ok.mp hw
    rw [htype] at hcoerce
    cases hcoerce
    exact hfault
  · cases hx
  · cases hx

omit [Scalar α] in
/-- Whether a float of a name is declared that must not be negative. -/
def refusesNegative (schema : ParamSchema α) (name : String) : Bool :=
  schema.any fun s => s.name = name && s.type = .float && s.nonNegative

/-- **Where negative numbers are refused, none is read.** -/
theorem not_neg_of_resolve (hschema : schema.WellFormed gate)
    (h : schema.resolve gate overrides = .ok params) {name : String}
    (hname : schema.refusesNegative name = true) {x : α} (hx : params.float name = .ok x) :
    ¬x < 0 := by
  obtain ⟨s, hs, hspec⟩ := List.any_eq_true.mp hname
  simp only [Bool.and_eq_true, decide_eq_true_eq] at hspec
  obtain ⟨⟨rfl, htype⟩, hnonneg⟩ := hspec
  have hfault := ParamSpec.fault?_float_eq_none.mp (fault?_of_resolve hschema h hs htype hx)
  exact fun hneg => hfault.2 ⟨hnonneg, hneg⟩

end ParamSchema

/-! ### Reading values that are known -/

namespace Params

variable {params : Params α}

theorem float_of_value (name : String) {x : α} (h : params.values[name]? = some (.float x)) :
    params.float name = .ok x := by rw [float, h]

omit [Scalar α] in
theorem str_of_value (name : String) {s : String} (h : params.values[name]? = some (.str s)) :
    params.str name = .ok s := by rw [str, h]

omit [Scalar α] in
theorem pulseShape_of_value (name : String) {s : String} {shape : PulseShape}
    (h : params.values[name]? = some (.str s)) (hs : PulseShape.ofName? s = some shape) :
    params.pulseShape name = .ok shape := by
  have hparse : (PulseShape.parse s : Except (WaveError α) PulseShape) = .ok shape := by
    rw [PulseShape.parse, hs]
  rw [pulseShape, named, str_of_value name h, Except.bind_ok, hparse]
  rfl

theorem table_of_value (name : String) {rows : List (List α)} {t : Table α}
    (h : params.values[name]? = some (.table rows)) (ht : Table.ofRows rows = .ok t) :
    params.table name = .ok t := by
  rw [table, h]
  simp only [ht]

end Params

end PulseControl
