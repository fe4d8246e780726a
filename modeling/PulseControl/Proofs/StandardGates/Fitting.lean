import PulseControl.Proofs.Registry.Sealed
import PulseControl.Proofs.StandardGates.Declared

/-!
# The procedures of the library keep to their signatures

A procedure asks for targets and arguments by their positions, and would fail for a position that a call
does not have. Those of the library ask for no more than their signatures demand of every call, and what
else they refuse, a parameter or the value of an argument, they refuse for itself.

* `PulseControl.Params.noMisfit_float` and the like – parameters that are read;
* `PulseControl.DriveRotation.noMisfit_synthesize` and the like – the procedures;
* `PulseControl.StandardGates.primitives_noMisfit` – all of them.
-/

namespace PulseControl

variable {α : Type} [Scalar α]

/-! ### What a procedure asks for -/

namespace GateCall

variable {call : GateCall α} {s : Signature} {i : Nat}

/-- A call that passes its check has the targets that its signature demands. -/
theorem noMisfit_demanded_target (h : s.check call = .ok ()) (hi : i < s.arity.least) :
    NoMisfit (call.target i) :=
  noMisfit_target (Nat.lt_of_lt_of_le hi (Signature.least_le_of_check h))

/-- A call that passes its check has the arguments that its signature demands. -/
theorem noMisfit_demanded_argument (h : s.check call = .ok ()) (hi : i < s.requiredCount) :
    NoMisfit (call.argument i) :=
  noMisfit_argument (Nat.lt_of_lt_of_le hi (Signature.requiredCount_le_of_check h))

end GateCall

namespace Params

variable (p : Params α) (name : String)

theorem noMisfit_float : NoMisfit (p.float name) := by
  rw [float]
  split
  · exact .ok _
  · exact .ok _
  · exact .error rfl
  · exact .error rfl

omit [Scalar α] in
theorem noMisfit_str : NoMisfit (p.str name) := by
  rw [str]
  split
  · exact .ok _
  · exact .error rfl
  · exact .error rfl

omit [Scalar α] in
theorem noMisfit_named {τ : Type} (read : String → Except (ValueFault α) τ) :
    NoMisfit (p.named name read) := by
  refine (p.noMisfit_str name).bind fun text _ => ?_
  split
  · exact .ok _
  · exact .error rfl

theorem noMisfit_table : NoMisfit (p.table name) := by
  rw [table]
  split
  · split
    · exact .ok _
    · exact .error rfl
  · exact .error rfl
  · exact .error rfl

end Params

/-! ### The procedures -/

variable {call : GateCall α} {params : Params α}

theorem DriveRotation.noMisfit_synthesize (h : (procedure (α := α)).signature.check call = .ok ()) :
    NoMisfit (procedure.synthesize call params) := by
  have hpulse : ∀ theta phi, NoMisfit (Pulse.ofParams params theta phi) := by
    intro theta phi
    refine (params.noMisfit_named _ _).bind fun shape _ => ?_
    iterate 3 refine (params.noMisfit_table _).bind fun table _ => ?_
    iterate 5 refine (params.noMisfit_float _).bind fun value _ => ?_
    exact .ok _
  refine (GateCall.noMisfit_demanded_target h Nat.one_pos).bind fun q _ => ?_
  refine (GateCall.noMisfit_demanded_argument h Nat.two_pos).bind fun theta _ => ?_
  refine (GateCall.noMisfit_demanded_argument h Nat.one_lt_two).bind fun phi _ => ?_
  refine (hpulse theta phi).bind fun pulse _ => ?_
  split
  · exact .ok _
  · exact .ok _

theorem Readout.noMisfit_synthesize (h : (procedure (α := α)).signature.check call = .ok ()) :
    NoMisfit (procedure.synthesize call params) := by
  have hchoice : NoMisfit (BitChoice.ofCall call) := by
    rw [BitChoice.ofCall]
    split
    · exact .ok _
    · split
      · exact .error rfl
      · split
        · exact .ok _
        · split
          · exact .error rfl
          · exact .ok _
  have hpulse : NoMisfit (Pulse.ofParams params) := by
    iterate 4 refine (params.noMisfit_float _).bind fun value _ => ?_
    iterate 2 refine (params.noMisfit_str _).bind fun text _ => ?_
    iterate 3 refine (params.noMisfit_float _).bind fun value _ => ?_
    exact .ok _
  refine (GateCall.noMisfit_demanded_target h Nat.one_pos).bind fun q _ => ?_
  exact hchoice.bind fun choice _ => hpulse.bind fun pulse _ => .ok _

theorem CrossResonance.noMisfit_synthesize {variant : Variant}
    (h : (procedure (α := α) variant).signature.check call = .ok ()) :
    NoMisfit ((procedure variant).synthesize call params) := by
  have hpulse : NoMisfit (Pulse.ofParams params) := by
    iterate 2 refine (params.noMisfit_float _).bind fun value _ => ?_
    refine (params.noMisfit_named _ _).bind fun shape _ => ?_
    iterate 10 refine (params.noMisfit_float _).bind fun value _ => ?_
    exact .ok _
  refine hpulse.bind fun pulse _ => ?_
  refine (GateCall.noMisfit_demanded_target h Nat.two_pos).bind fun control _ => ?_
  refine (GateCall.noMisfit_demanded_target h Nat.one_lt_two).bind fun target _ => ?_
  rcases variant with _ | _
  · exact .ok _
  · exact .ok _

theorem FluxPulse.noMisfit_synthesize (h : (procedure (α := α)).signature.check call = .ok ()) :
    NoMisfit (procedure.synthesize call params) := by
  have hpulse : NoMisfit (Pulse.ofParams params) := by
    iterate 8 refine (params.noMisfit_float _).bind fun value _ => ?_
    exact .ok _
  refine (GateCall.noMisfit_demanded_target h Nat.two_pos).bind fun a _ => ?_
  refine (GateCall.noMisfit_demanded_target h Nat.one_lt_two).bind fun b _ => ?_
  exact hpulse.bind fun pulse _ => .ok _

theorem PhaseShift.noMisfit_synthesize (h : (procedure (α := α)).signature.check call = .ok ()) :
    NoMisfit (procedure.synthesize call params) := by
  refine (GateCall.noMisfit_demanded_target h Nat.one_pos).bind fun q _ => ?_
  exact (GateCall.noMisfit_demanded_argument h Nat.one_pos).bind fun theta _ => .ok _

theorem Delay.noMisfit_synthesize (h : (procedure (α := α)).signature.check call = .ok ()) :
    NoMisfit (procedure.synthesize call params) := by
  refine (GateCall.noMisfit_demanded_target h Nat.one_pos).bind fun q _ => ?_
  refine (GateCall.noMisfit_demanded_argument h Nat.one_pos).bind fun duration _ => ?_
  split
  · exact .error rfl
  · exact .ok _

namespace StandardGates

/-- **The procedures of the library** take every call that passes the check of their signature, and can
refuse it only for its parameters or the values of its arguments. -/
theorem primitives_noMisfit {key : GateKey} {schema : ParamSchema α} {procedure : Procedure α}
    (hmem : (key, .primitive schema procedure) ∈ primitives (α := α))
    (h : procedure.signature.check call = .ok ()) : NoMisfit (procedure.synthesize call params) := by
  cases standard_of_mem hmem with
  | rotation => exact DriveRotation.noMisfit_synthesize h
  | readout => exact Readout.noMisfit_synthesize h
  | cross => exact CrossResonance.noMisfit_synthesize h
  | flux => exact FluxPulse.noMisfit_synthesize h
  | phase => exact PhaseShift.noMisfit_synthesize h
  | delay => exact Delay.noMisfit_synthesize h
  | barrier => exact .ok _

end StandardGates

end PulseControl
