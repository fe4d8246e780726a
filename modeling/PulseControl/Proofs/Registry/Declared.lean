import PulseControl.Proofs.Except
import PulseControl.Proofs.Synthesis
import PulseControl.Registry.Basic

/-!
# Markers that are declared

A gate declares the calls that it may expand to by its steps. For a compound gate the steps are all there
is. A procedure is free to give any markers, and a registry is well-declared if none of its procedures
makes use of this.

* `PulseControl.GateDefinition.Declares` – a call comes from a step of the gate;
* `PulseControl.Registry.WellDeclared` – every marker of a procedure is declared;
* `PulseControl.Registry.WellDeclared.declares` – then so is every marker of a gate.
-/

namespace PulseControl

variable {α : Type} [Scalar α]

/-- The call `x` comes from a step of the gate, inside the call `call` of it. -/
def GateDefinition.Declares (d : GateDefinition α) (call x : GateCall α) : Prop :=
  ∃ step ∈ d.subcalls, step.bind call d.signature = .ok x

namespace Registry

/-- **Every marker that a procedure can give is declared**, whatever the call, the overrides of its
parameters and the ledgers that the synthesis meets. -/
def WellDeclared (r : Registry α) : Prop :=
  ∀ (call : GateCall α) (overrides : ParamValues α) (schema : ParamSchema α)
    (procedure : Procedure α) (params : Params α) (s : Synthesis α),
    r.get? call.key = some (.primitive schema procedure) →
    r.resolve call.key overrides = .ok params → procedure.synthesize call params = .ok s →
    ∀ x, s.CanEmit (.expand x) → (GateDefinition.primitive schema procedure).Declares call x

variable {r : Registry α} {call : GateCall α} {s : Synthesis α}

omit [Scalar α] in
theorem get_eq_ok {key : GateKey} {d : GateDefinition α} :
    r.get key = .ok d ↔ r.get? key = some d := by
  rw [get]
  split
  · next d' hd => simp [hd]
  · next hnone => simp [hnone]

theorem checkCall_eq_ok {d : GateDefinition α} :
    r.checkCall call = .ok d ↔ r.get? call.key = some d ∧ d.signature.check call = .ok () := by
  rw [checkCall, Except.bind_eq_ok]
  constructor
  · rintro ⟨d', hd, h⟩
    obtain ⟨⟨⟩, hcheck, h⟩ := Except.bind_eq_ok.mp h
    obtain rfl : d' = d := Except.ok.inj h
    exact ⟨get_eq_ok.mp hd, hcheck⟩
  · rintro ⟨hd, hcheck⟩
    exact ⟨d, get_eq_ok.mpr hd, Except.bind_eq_ok.mpr ⟨(), hcheck, rfl⟩⟩

/-- The synthesis of a compound gate is a marker for each of its steps. -/
theorem markers_eq_ok {signature : Signature} {steps : List (Step α)} :
    markers call signature steps = .ok s ↔
      ∃ calls, (steps.mapM fun step => step.bind call signature) = .ok calls ∧
        s = ⟨calls.map fun c => .emit (.expand c), []⟩ := by
  rw [markers, Except.bind_eq_ok]
  constructor
  · rintro ⟨calls, hcalls, h⟩
    exact ⟨calls, hcalls, (Except.ok.inj h).symm⟩
  · rintro ⟨calls, hcalls, rfl⟩
    exact ⟨calls, hcalls, rfl⟩

theorem synthesize_primitive {schema : ParamSchema α} {procedure : Procedure α} {params : Params α}
    (h : r.get? call.key = some (.primitive schema procedure)) :
    r.synthesize call params = procedure.synthesize call params := by
  rw [synthesize, get_eq_ok.mpr h]
  rfl

theorem synthesize_compound {signature : Signature} {steps : List (Step α)} {params : Params α}
    (h : r.get? call.key = some (.compound signature steps)) :
    r.synthesize call params = markers call signature steps := by
  rw [synthesize, get_eq_ok.mpr h]
  rfl

theorem resolve_primitive {key : GateKey} {schema : ParamSchema α} {procedure : Procedure α}
    (h : r.get? key = some (.primitive schema procedure)) (overrides : ParamValues α) :
    r.resolve key overrides = schema.resolve key overrides := by
  rw [resolve, get_eq_ok.mpr h]
  rfl

/-- **In a well-declared registry every marker of a gate is declared.** -/
theorem WellDeclared.declares (h : r.WellDeclared) {d : GateDefinition α}
    {overrides : ParamValues α} {params : Params α} (hd : r.get? call.key = some d)
    (hparams : r.resolve call.key overrides = .ok params)
    (hs : r.synthesize call params = .ok s) {x : GateCall α} (hx : s.CanEmit (.expand x)) :
    d.Declares call x := by
  cases d with
  | primitive schema procedure =>
    rw [synthesize_primitive hd] at hs
    exact h call overrides schema procedure params s hd hparams hs x hx
  | compound signature steps =>
    rw [synthesize_compound hd, markers_eq_ok] at hs
    obtain ⟨calls, hcalls, rfl⟩ := hs
    obtain ⟨stage, hmem, hstage⟩ := hx.mem
    obtain ⟨c, hc, rfl⟩ := List.mem_map.mp hmem
    cases hstage
    exact Except.exists_of_mem_result hcalls hc

end Registry

end PulseControl
