import PulseControl.Proofs.Gate.Expression
import PulseControl.Proofs.Registry.Sealed

/-!
# Steps that cannot be bound

The names in the steps of a gate are looked at once, when the gate is registered, and are then known to be
arguments of the gate. This settles everything about a step that does not depend on the values of the
arguments. Where a call has been checked and gives all arguments, what is left that can keep a step of it
from being bound is arithmetic: a divisor that is zero, or a value that is not finite.

* `PulseControl.Step.bind_or_noFiniteValue` – a step whose targets are there is bound, unless one of its
  expressions has no finite value;
* `PulseControl.Registry.symbols_of_build` – the names in the steps of a registered gate are arguments;
* `PulseControl.Registry.expressions_fail_only_where_undefined` – when an expression has a value, and when
  a step can be bound.
-/

namespace PulseControl

variable {α : Type}

/-! ### One step -/

theorem Registry.Builder.symbols_of_checkStep {key : GateKey} {signature : Signature} {s : Step α}
    (h : checkStep key signature s = .ok ()) {e : ArgExpr α} (he : e ∈ s.args)
    {n : String} (hn : n ∈ e.symbols) : n ∈ signature.argNames := by
  rw [checkStep] at h
  split at h
  · cases h
  · split at h
    · cases h
    · next hunbound =>
      have hnone := List.findSome?_eq_none_iff.mp hunbound e he
      have hbound := List.find?_eq_none.mp hnone n hn
      simpa using hbound

/-- An argument of a gate has a value in every call that gives all arguments. -/
theorem Signature.positional_isSome {s : Signature} {args : List α} (hall : args.length = s.args.length)
    {n : String} (hn : n ∈ s.argNames) : (ArgExpr.positional s.argNames args n).isSome = true := by
  obtain ⟨i, hi⟩ := List.getElem?_of_mem hn
  obtain ⟨hlt, -⟩ := List.getElem?_eq_some_iff.mp hi
  rw [argNames, List.length_map, ← hall] at hlt
  exact ArgExpr.positional_isSome_of_getElem? hi hlt

variable [Scalar α]

/-- **A step whose targets are there is bound**, unless one of its expressions has no finite value. -/
theorem Step.bind_or_noFiniteValue {s : Step α} {call : GateCall α} {signature : Signature}
    (htargets : ∀ i ∈ s.targets, i < call.targets.length) :
    (∃ x, s.bind call signature = .ok x) ∨ ∃ e ∈ s.args,
      s.bind call signature =
        .error (.invalidArgument s.key (.computed e) (.noFiniteValue call.key)) ∧
      (e.evalPositional signature.argNames call.args).filter Scalar.isFinite = none := by
  cases hbind : s.bind call signature with
  | ok x => exact Or.inl ⟨x, rfl⟩
  | error err =>
    refine Or.inr ?_
    rcases Except.bind_eq_error.mp hbind with hfails | ⟨_, -, hrest⟩
    · obtain ⟨i, hi, hfails⟩ := Except.exists_of_mapM_eq_error hfails
      rw [GateCall.target, List.getElem?_eq_getElem (htargets i hi)] at hfails
      cases hfails
    · rcases Except.bind_eq_error.mp hrest with hfails | ⟨_, -, hdone⟩
      · obtain ⟨e, he, hfails⟩ := Except.exists_of_mapM_eq_error hfails
        rw [bindArg] at hfails
        split at hfails
        · cases hfails
        · next hnone => exact ⟨e, he, congrArg Except.error (Except.error.inj hfails).symm, hnone⟩
      · cases hdone

namespace Registry

variable {attempts : List (GateKey × GateDefinition α)} {r : Registry α}

/-- **The names in the steps of a registered gate are arguments of the gate.** -/
theorem symbols_of_build (hr : ((∅ : Builder α).attemptAll attempts).build = .ok r) {key : GateKey}
    {d : GateDefinition α} (hd : r.get? key = some d) {s : Step α} (hs : s ∈ d.subcalls) {e : ArgExpr α}
    (he : e ∈ s.args) {n : String} (hn : n ∈ e.symbols) : n ∈ d.signature.argNames := by
  obtain ⟨_, -, hsteps⟩ := Except.bind_eq_ok.mp (Builder.checked_of_build_get? hr hd)
  exact Builder.symbols_of_checkStep (Except.forM_eq_ok.mp hsteps s hs) he hn

/-- **Expressions fail only where they are undefined.** An expression over positional values has a value
exactly if each of its names has one, at the first position of the name, and no divisor in it has the value
zero; and it depends on the values of its names alone. So a step of a registered gate is bound in every
call that is checked and gives all arguments, or an expression of it is to blame: it has a divisor that is
zero, or its value is not finite. -/
theorem expressions_fail_only_where_undefined :
    (∀ (e : ArgExpr α) (names : List String) (values : List α),
      ((e.evalPositional names values).isSome = true ↔
        (∀ s ∈ e.symbols, ∃ i, names.idxOf? s = some i ∧ i < values.length) ∧
        ∀ d ∈ e.divisors, ¬ ∃ v, d.evalPositional names values = some v ∧ (v == 0) = true) ∧
      ∀ (names' : List String) (values' : List α),
        (∀ s ∈ e.symbols,
          ArgExpr.positional names values s = ArgExpr.positional names' values' s) →
        e.evalPositional names values = e.evalPositional names' values') ∧
    ∀ (attempts : List (GateKey × GateDefinition α)) (r : Registry α) (call : GateCall α)
      (d : GateDefinition α) (s : Step α),
      ((∅ : Builder α).attemptAll attempts).build = .ok r → r.checkCall call = .ok d →
      call.args.length = d.signature.args.length → s ∈ d.subcalls →
      (∃ x, s.bind call d.signature = .ok x) ∨ ∃ e ∈ s.args,
        s.bind call d.signature =
          .error (.invalidArgument s.key (.computed e) (.noFiniteValue call.key)) ∧
        ((∃ divisor ∈ e.divisors, ∃ v,
            divisor.evalPositional d.signature.argNames call.args = some v ∧ (v == 0) = true) ∨
          ∃ v, e.evalPositional d.signature.argNames call.args = some v ∧
            Scalar.isFinite v = false) := by
  refine ⟨fun e names values => ⟨?_, fun names' values' h => ArgExpr.eval_congr h⟩,
    fun attempts r call d s hr hcall hall hs => ?_⟩
  · simp only [← ArgExpr.positional_isSome_iff]
    exact ArgExpr.eval_isSome_iff
  · obtain ⟨hd, hcheck⟩ := checkCall_eq_ok.mp hcall
    have htargets : ∀ i ∈ s.targets, i < call.targets.length := fun i hi =>
      Nat.lt_of_lt_of_le ((sealed_of_build hr).positions call.key d hd s hs i hi)
        (Signature.least_le_of_check hcheck)
    refine (Step.bind_or_noFiniteValue htargets).imp_right ?_
    rintro ⟨e, he, hbind, hnone⟩
    refine ⟨e, he, hbind, ?_⟩
    have hnames : ∀ n ∈ e.symbols,
        (ArgExpr.positional d.signature.argNames call.args n).isSome = true := fun n hn =>
      Signature.positional_isSome hall (symbols_of_build hr hd hs he hn)
    by_cases hdivisors : ∀ divisor ∈ e.divisors,
        ¬ divisor.IsZero (ArgExpr.positional d.signature.argNames call.args)
    · -- the expression has a value, which the check for finite values has stopped
      have hsome : (e.evalPositional d.signature.argNames call.args).isSome = true :=
        ArgExpr.eval_isSome_iff.mpr ⟨hnames, hdivisors⟩
      obtain ⟨v, hv⟩ := Option.isSome_iff_exists.mp hsome
      rw [hv, Option.filter_eq_none_iff] at hnone
      exact Or.inr ⟨v, hv, Bool.not_eq_true _ ▸ hnone v rfl⟩
    · push Not at hdivisors
      exact Or.inl hdivisors

/-- A turn, and a gate that turns by a part of a whole. -/
def sharingGates : List (GateKey × GateDefinition Float) :=
  [(.plain "turn", .compound ((Signature.qubits 1).arg "angle") []),
    (.plain "share", .compound (((Signature.qubits 1).arg "whole").arg "parts")
      [⟨.plain "turn", [0], [.div (.symbol "whole") (.symbol "parts")]⟩])]

/-- The call with no parts at all is checked without complaint, and its step cannot be bound because the
divisor of its expression is zero. -/
theorem shared_among_no_parts : ∃ (r : Registry Float) (d : GateDefinition Float) (s : Step Float),
    ((∅ : Builder Float).attemptAll sharingGates).build = .ok r ∧
    r.checkCall ⟨.plain "share", ["Q0"], [1, 0]⟩ = .ok d ∧ s ∈ d.subcalls ∧
    ∃ e ∈ s.args,
      s.bind ⟨.plain "share", ["Q0"], [1, 0]⟩ d.signature =
        .error (.invalidArgument s.key (.computed e) (.noFiniteValue (.plain "share"))) ∧
      ∃ divisor ∈ e.divisors, ∃ v,
        divisor.evalPositional d.signature.argNames [1, 0] = some v ∧ (v == 0) = true := by
  have hbuild : ((∅ : Builder Float).attemptAll sharingGates).build = .ok
      (((∅ : Builder Float).attemptAll sharingGates).build.toOption.getD ⟨∅, []⟩) := by rfl
  have hcall : (((∅ : Builder Float).attemptAll sharingGates).build.toOption.getD ⟨∅, []⟩).checkCall
      (⟨.plain "share", ["Q0"], [1, 0]⟩ : GateCall Float) = .ok (sharingGates[1].2) := by rfl
  refine ⟨_, _, _, hbuild, hcall, List.mem_singleton.mpr rfl, ?_⟩
  rcases expressions_fail_only_where_undefined.2 _ _ _ _ _ hbuild hcall rfl
    (List.mem_singleton.mpr rfl) with ⟨x, hx⟩ | ⟨e, he, hbind, hdivisor | ⟨v, hv, -⟩⟩
  · exact nomatch hx
  · exact ⟨e, he, hbind, hdivisor⟩
  · obtain rfl := List.mem_singleton.mp he
    exact nomatch hv

end Registry

end PulseControl
