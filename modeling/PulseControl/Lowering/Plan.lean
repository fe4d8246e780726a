import PulseControl.Registry.Basic

/-!
# Planning a call

Before a call gives its first instruction, the whole tree of gates that it can expand to is walked once:
every call is checked, its parameters are resolved and its synthesis is tried. Parameters belong to
slots and are resolved once for each. A call that was walked before with as little room below the depth
limit is not walked again, so shared subtrees cost nothing.

* `PulseControl.Lowerer` – a registry, a calibration and options;
* `PulseControl.Lowerer.plan` – the walk, which gives the parameters of every slot.
-/

namespace PulseControl

/-- The depth limit where none is given. -/
def defaultMaxDepth : Nat := 32

/-- The options of a lowering. -/
structure LoweringOptions where
  /-- How deep gates may be nested; the call itself counts as 1. -/
  maxDepth : Nat := defaultMaxDepth
  /-- Whether markers for expanded gates are part of the output. -/
  emitExpansions : Bool := true
  deriving DecidableEq, Repr

/-- What gate calls are lowered against. The calibration gives the overrides of a slot. -/
structure Lowerer (α : Type) where
  registry : Registry α
  calibration : Slot → ParamValues α
  options : LoweringOptions

/-- Resolved parameters by slot. -/
abbrev Plan (α : Type) := Std.ExtTreeMap Slot (Params α)

/-- A plan under construction. -/
structure Planning (α : Type) where
  /-- The parameters resolved so far. -/
  plan : Plan α
  /-- For every slot the argument lists of the calls walked, each with the least room it had. -/
  walked : Std.ExtTreeMap Slot (List (List α × Nat))

namespace Planning

variable {α : Type}

instance : EmptyCollection (Planning α) := ⟨⟨∅, ∅⟩⟩

variable [Scalar α]

/-- Whether two argument lists are identical. -/
def sameArgs (xs ys : List α) : Bool :=
  haveI : DecidableEq α := Scalar.decEq
  decide (xs = ys)

/-- The least room that a call was walked with. -/
def room? (p : Planning α) (call : GateCall α) : Option Nat :=
  (((p.walked[call.slot]?).getD []).find? fun w => sameArgs w.1 call.args).map Prod.snd

/-- The record that a call is walked with some room. -/
def walk (p : Planning α) (call : GateCall α) (room : Nat) : Planning α :=
  let others := ((p.walked[call.slot]?).getD []).filter fun w => !sameArgs w.1 call.args
  { p with walked := p.walked.insert call.slot ((call.args, room) :: others) }

end Planning

namespace Lowerer

variable {α : Type} [Scalar α]

/-- The parameters of a slot under the calibration. -/
def resolve (l : Lowerer α) (slot : Slot) : Except (GateError α) (Params α) :=
  l.registry.resolve slot.key (l.calibration slot)

/-- The error of a call beyond the depth limit. -/
def tooDeep (l : Lowerer α) (call : GateCall α) : GateError α :=
  .expansionDepth call.key l.options.maxDepth

/-- The parameters of a slot, resolved if they have not been. -/
def paramsFor (l : Lowerer α) (p : Planning α) (slot : Slot) :
    Except (GateError α) (Params α × Planning α) :=
  match p.plan[slot]? with
  | some params => .ok (params, p)
  | none =>
    (l.resolve slot).map fun params => (params, { p with plan := p.plan.insert slot params })

/-- The walk below a call that may nest `room` gates, itself included. A call that is new is also
synthesized, for the errors that only its arguments show. -/
def planCall (l : Lowerer α) : Nat → GateCall α → Planning α → Except (GateError α) (Planning α)
  | 0, call, _ => .error (l.tooDeep call)
  | room + 1, call, p => do
    let definition ← l.registry.checkCall call
    let (params, p) ← l.paramsFor p call.slot
    let below (p : Planning α) : Except (GateError α) (Planning α) :=
      definition.subcalls.foldlM (fun p step => do
        let inner ← step.bind call definition.signature
        planCall l room inner p) (p.walk call room)
    match p.room? call with
    | some seen => if seen ≤ room then return p else below p
    | none =>
      discard (l.registry.synthesize call params)
      below p

/-- **The plan of a call**: the parameters of every slot that it can reach, or the first error in the
order of the walk. -/
def plan (l : Lowerer α) (call : GateCall α) : Except (GateError α) (Plan α) :=
  (l.planCall l.options.maxDepth call ∅).map Planning.plan

end Lowerer

end PulseControl
