import PulseControl.Decimal.Style
import PulseControl.Gate.Key

/-!
# Gate calls

A call invokes a gate on target qubits with positional arguments.

* `PulseControl.GateCall` – the calls;
* `PulseControl.Arity` – how many targets a gate takes.
-/

namespace PulseControl

/-- One invocation of a gate. -/
structure GateCall (α : Type) where
  /-- The gate. -/
  key : GateKey
  /-- The targets, in the order of the gate. -/
  targets : List Qubit
  /-- The positional arguments. -/
  args : List α
  deriving Repr, Inhabited

namespace GateCall

/-- The place to which the parameters of a call belong. -/
def slot {α : Type} (c : GateCall α) : Slot := ⟨c.key, c.targets⟩

/-- The text of a call; the arguments are left out where there are none. -/
def text (c : GateCall Float) : String :=
  let args :=
    if c.args.isEmpty then ""
    else "(" ++ ", ".intercalate (c.args.map Decimal.NumberStyle.plain.write) ++ ")"
  c.key.text ++ args ++ " " ++ ", ".intercalate c.targets

end GateCall

/-- How many targets a gate takes. -/
inductive Arity where
  /-- This many. -/
  | exactly (count : Nat)
  /-- This many or more. -/
  | atLeast (count : Nat)
  deriving DecidableEq, Repr, Inhabited

namespace Arity

/-- Whether a number of targets is accepted. -/
def accepts : Arity → Nat → Bool
  | .exactly k, n => n = k
  | .atLeast k, n => k ≤ n

/-- The number of targets that every call has. -/
def least : Arity → Nat
  | .exactly k | .atLeast k => k

/-- A call with an accepted number of targets has the guaranteed ones. -/
theorem least_le_of_accepts {a : Arity} {n : Nat} (h : a.accepts n = true) : a.least ≤ n := by
  cases a with
  | exactly k => simp only [accepts, decide_eq_true_eq] at h; simp [least, h]
  | atLeast k => simpa [accepts, least] using h

/-- The text of an arity. -/
def text : Arity → String
  | .exactly k => "exactly " ++ toString k
  | .atLeast k => "at least " ++ toString k

end Arity

end PulseControl
