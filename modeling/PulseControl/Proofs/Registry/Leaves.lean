import PulseControl.Proofs.Registry.Declared

/-!
# The primitive calls behind a call

A compound gate is replaced by its steps, bound to the arguments and targets of the call, and the steps
are replaced in turn until only primitive calls are left. What comes out is a sequence of calls that does
not depend on any parameters, nor on a ledger.

* `PulseControl.Registry.Leaves` – the sequence behind some calls, level by level;
* `PulseControl.Registry.Leaves.deterministic`, `PulseControl.Registry.Leaves.append` – there is at most
  one, and that of calls in succession is put together from those of the parts.
-/

namespace PulseControl.Registry

variable {α : Type} [Scalar α]

/-- **The primitive calls behind some calls**, in the order in which they are made. -/
inductive Leaves (r : Registry α) : List (GateCall α) → List (GateCall α) → Prop
  /-- Nothing is called. -/
  | nil : Leaves r [] []
  /-- A primitive call stays as it is. -/
  | primitive {call : GateCall α} {schema : ParamSchema α} {procedure : Procedure α}
      {calls leaves : List (GateCall α)} :
      r.checkCall call = .ok (.primitive schema procedure) → Leaves r calls leaves →
      Leaves r (call :: calls) (call :: leaves)
  /-- A compound call is replaced by what is behind its steps. -/
  | compound {call : GateCall α} {signature : Signature} {steps : List (Step α)}
      {inner below calls leaves : List (GateCall α)} :
      r.checkCall call = .ok (.compound signature steps) →
      (steps.mapM fun step => step.bind call signature) = .ok inner →
      Leaves r inner below → Leaves r calls leaves → Leaves r (call :: calls) (below ++ leaves)

variable {r : Registry α} {calls leaves leaves' : List (GateCall α)}

/-- **There is at most one sequence of primitive calls** behind given calls. -/
theorem Leaves.deterministic (h : r.Leaves calls leaves) (h' : r.Leaves calls leaves') :
    leaves = leaves' := by
  induction h generalizing leaves' with
  | nil =>
    cases h'
    rfl
  | primitive hcheck _ ih =>
    cases h' with
    | primitive _ hrest => rw [ih hrest]
    | compound hcheck' _ _ _ => cases hcheck.symm.trans hcheck'
  | compound hcheck hinner _ _ ihbelow ihrest =>
    cases h' with
    | primitive hcheck' _ => cases hcheck.symm.trans hcheck'
    | compound hcheck' hinner' hbelow hrest =>
      cases hcheck.symm.trans hcheck'
      cases hinner.symm.trans hinner'
      rw [ihbelow hbelow, ihrest hrest]

/-- Calls that are made one after the other. -/
theorem Leaves.append {calls' : List (GateCall α)} (h : r.Leaves calls leaves)
    (h' : r.Leaves calls' leaves') : r.Leaves (calls ++ calls') (leaves ++ leaves') := by
  induction h with
  | nil => exact h'
  | primitive hcheck _ ih => exact .primitive hcheck ih
  | compound hcheck hinner hbelow _ _ ih =>
    rw [List.append_assoc]
    exact .compound hcheck hinner hbelow ih

end PulseControl.Registry
