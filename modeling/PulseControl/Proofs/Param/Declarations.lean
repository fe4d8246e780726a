import PulseControl.Proofs.Param.Interpolation
import PulseControl.Proofs.Param.Resolution

/-!
# Sound declarations

A schema is well-formed if every default passes the check of its declaration. For declarations that are
put together by the constructors of the library this is seen from the default alone: a float always
passes, unless it is negative where that is refused, a string passes if it is one of the choices, and a
table of two points if they ascend.

* `PulseControl.ParamSpec.Sound` – a default that passes its own check;
* `PulseControl.ParamSchema.wellFormed_of_sound` – schemas of sound declarations.
-/

namespace PulseControl

variable {α : Type} [ExactScalar α]

namespace ParamSpec

/-- **A declaration is sound** if its default, where there is one, is of the declared type and without
fault. -/
def Sound (s : ParamSpec α) : Prop :=
  ∀ d, s.default? = some d → d.type = s.type ∧ s.fault? d = none

/-- A unit changes nothing. -/
theorem Sound.inUnit {s : ParamSpec α} (h : s.Sound) (unit : String) : (s.inUnit unit).Sound := h

theorem sound_float (name : String) (x : α) : (float name x).Sound := by
  rintro _ ⟨⟩
  exact ⟨rfl, fault?_float_eq_none.mpr ⟨ExactScalar.isFinite_eq x, fun h => nomatch h.1⟩⟩

theorem sound_refusingNegative (name unit : String) {x : α} (hx : 0 ≤ x) :
    ((float name x).inUnit unit).refusingNegative.Sound := by
  rintro _ ⟨⟩
  exact ⟨rfl, fault?_float_eq_none.mpr ⟨ExactScalar.isFinite_eq x, fun h => hx.not_gt h.2⟩⟩

theorem sound_str (name value : String) : (str name value : ParamSpec α).Sound := by
  rintro _ ⟨⟩
  exact ⟨rfl, rfl⟩

theorem sound_oneOf (name : String) {value : String} {choices : List String}
    (h : choices.contains value = true) : ((str name value : ParamSpec α).oneOf choices).Sound := by
  rintro _ ⟨⟩
  exact ⟨rfl, if_pos h⟩

theorem sound_table (name : String) {p q : α × α} (h : p.1 ≤ q.1) : (table name p q).Sound := by
  rintro _ ⟨⟩
  refine ⟨rfl, ?_⟩
  rw [fault?, Table.ofRows_pair h]

end ParamSpec

/-- **A schema of sound declarations** is well-formed. -/
theorem ParamSchema.wellFormed_of_sound {schema : ParamSchema α}
    (hnodup : (schema.map ParamSpec.name).Nodup) (h : ∀ s ∈ schema, s.Sound) (gate : GateKey) :
    schema.WellFormed gate where
  nodup := hnodup
  defaults s hs d hd := by
    obtain ⟨htype, hfault⟩ := h s hs d hd
    exact ⟨d, ParamSpec.check_eq_ok.mpr ⟨ParamValue.coerce?_of_type htype, hfault⟩⟩

end PulseControl
