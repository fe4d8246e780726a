import PulseControl.Proofs.Param.Resolution

/-!
# Parameters are read by their values

Parameters carry the name of their gate along, but only for the errors. What is read from them depends on
their values alone, and so do the values that overrides resolve to. Two gates of one schema that are
calibrated alike therefore read alike.

* `PulseControl.ParamSchema.resolve_under` – overrides resolve to the same values under any gate;
* `PulseControl.Params.float_of_values`, `PulseControl.Params.edgeShape_of_values` – what is read from one
  of two sets of equal values is read from the other.
-/

namespace PulseControl

variable {α : Type} [Scalar α]

/-! ### Resolution -/

namespace ParamSchema

variable {schema : ParamSchema α} {gate : GateKey} {overrides : ParamValues α}

theorem valueOf?_under {s : ParamSpec α} {found : Option (ParamValue α)}
    (h : valueOf? gate overrides s = .ok found) (gate' : GateKey) :
    valueOf? gate' overrides s = .ok found := by
  rw [valueOf?] at h ⊢
  split at h
  · obtain ⟨w, hw, rfl⟩ := Except.map_eq_ok.mp h
    exact Except.map_eq_ok.mpr ⟨w, ParamSpec.check_eq_ok.mpr (ParamSpec.check_eq_ok.mp hw), rfl⟩
  · exact h

theorem collect_under {values result : ParamValues α}
    (h : collect gate overrides schema values = .ok result) (gate' : GateKey) :
    collect gate' overrides schema values = .ok result := by
  induction schema generalizing values with
  | nil => exact h
  | cons s rest ih =>
    obtain ⟨found, hfound, hrest⟩ := collect_cons.mp h
    exact collect_cons.mpr ⟨found, valueOf?_under hfound gate', ih hrest⟩

/-- **Overrides resolve to the same values under any gate.** -/
theorem resolve_under {params : Params α} (h : schema.resolve gate overrides = .ok params)
    (gate' : GateKey) : schema.resolve gate' overrides = .ok ⟨gate', params.values⟩ := by
  have hcollect := collect_under (collect_of_resolve h) gate'
  rw [resolve] at h ⊢
  split at h
  · cases h
  · exact Except.map_eq_ok.mpr ⟨_, hcollect, rfl⟩

end ParamSchema

/-! ### Reading -/

namespace Params

variable {params params' : Params α}

theorem float_of_values {name : String} {x : α} (h : params.values = params'.values)
    (hx : params.float name = .ok x) : params'.float name = .ok x := by
  rw [float] at hx ⊢
  rw [← h]
  split at hx
  · exact hx
  · exact hx
  · cases hx
  · cases hx

omit [Scalar α] in
theorem str_of_values {name s : String} (h : params.values = params'.values)
    (hs : params.str name = .ok s) : params'.str name = .ok s := by
  rw [str] at hs ⊢
  rw [← h]
  split at hs
  · exact hs
  · cases hs
  · cases hs

omit [Scalar α] in
theorem named_of_values {τ : Type} {name : String} {read : String → Except (ValueFault α) τ} {x : τ}
    (h : params.values = params'.values) (hx : params.named name read = .ok x) :
    params'.named name read = .ok x := by
  obtain ⟨s, hs, hread⟩ := Except.bind_eq_ok.mp hx
  refine Except.bind_eq_ok.mpr ⟨s, str_of_values h hs, ?_⟩
  cases hout : read s with
  | ok y =>
    rw [hout] at hread
    exact hread
  | error fault =>
    rw [hout] at hread
    cases hread

omit [Scalar α] in
theorem edgeShape_of_values {name : String} {shape : EdgeShape} (h : params.values = params'.values)
    (hshape : params.edgeShape name = .ok shape) : params'.edgeShape name = .ok shape :=
  named_of_values h hshape

end Params

end PulseControl
