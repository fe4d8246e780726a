import PulseControl.Gate.Signature

/-!
# Calls that fit a signature

The check of a call looks for four things, one after the other, and reports the first that is wrong. A call
that passes it has all of them in order.

* `PulseControl.Signature.firstRepeated?_eq_none` – no qubit is found twice;
* `PulseControl.Signature.check_eq_ok` – what a call that passes is known to have;
* `PulseControl.Signature.least_le_of_check`, `PulseControl.Signature.requiredCount_le_of_check`,
  `PulseControl.Signature.args_of_check` – its targets and its arguments.
-/

namespace PulseControl.Signature

/-- The search for a qubit that comes twice finds none exactly if there is none. -/
theorem firstRepeated?_eq_none {seen qs : List Qubit} :
    firstRepeated? seen qs = none ↔ qs.Nodup ∧ ∀ q ∈ qs, q ∉ seen := by
  induction qs generalizing seen with
  | nil => simp [firstRepeated?]
  | cons q qs ih =>
    rw [firstRepeated?, List.nodup_cons, List.forall_mem_cons]
    split
    · next hseen =>
      refine iff_of_false (Option.some_ne_none q) fun h => ?_
      exact h.2.1 (List.contains_iff_mem.mp hseen)
    · next hnew =>
      rw [ih]
      constructor
      · rintro ⟨hnodup, hrest⟩
        have hq : q ∉ qs := fun hmem => hrest q hmem List.mem_cons_self
        exact ⟨⟨hq, hnodup⟩, fun hmem => hnew (List.contains_iff_mem.mpr hmem),
          fun r hr hmem => hrest r hr (List.mem_cons_of_mem _ hmem)⟩
      · rintro ⟨⟨hq, hnodup⟩, -, hrest⟩
        refine ⟨hnodup, fun r hr hmem => ?_⟩
        rcases List.mem_cons.mp hmem with rfl | hmem
        · exact hq hr
        · exact hrest r hr hmem

/-- **A call that passes the check** has as many targets as the signature wants, all different, as many
arguments, and these are finite. -/
theorem check_eq_ok {α : Type} [Scalar α] {s : Signature} {call : GateCall α} :
    s.check call = .ok () ↔ s.arity.accepts call.targets.length = true ∧ call.targets.Nodup ∧
      s.acceptsArgs call.args.length = true ∧
      ∀ p ∈ s.args.zip call.args, Scalar.isFinite p.2 = true := by
  have hnodup : firstRepeated? [] call.targets = none ↔ call.targets.Nodup := by
    rw [firstRepeated?_eq_none]
    exact and_iff_left fun _ _ => List.not_mem_nil
  have hfinite : ((s.args.zip call.args).find? fun p => !Scalar.isFinite p.2) = none ↔
      ∀ p ∈ s.args.zip call.args, Scalar.isFinite p.2 = true := by
    simp only [List.find?_eq_none, Bool.not_eq_true', Bool.not_eq_false]
  rw [check, ← hnodup, ← hfinite]
  split
  · next h => simp [h]
  · next h =>
    rw [Decidable.not_not] at h
    split
    · next hrepeated => simp [hrepeated]
    · next hnone =>
      split
      · next hargs => simp [hargs]
      · next hargs =>
        rw [Decidable.not_not] at hargs
        split
        · next hfound => simp [hfound]
        · next hfound => simp [h, hnone, hargs, hfound]

variable {α : Type} [Scalar α] {s : Signature} {call : GateCall α}

/-- A call that passes the check has the targets that are demanded of every call. -/
theorem least_le_of_check (h : s.check call = .ok ()) : s.arity.least ≤ call.targets.length :=
  Arity.least_le_of_accepts (check_eq_ok.mp h).1

/-- A call that passes the check has the arguments that are demanded of every call. -/
theorem requiredCount_le_of_check (h : s.check call = .ok ()) :
    s.requiredCount ≤ call.args.length := by
  obtain ⟨-, -, hargs, -⟩ := check_eq_ok.mp h
  rw [acceptsArgs, Bool.and_eq_true, decide_eq_true_eq] at hargs
  exact hargs.1

/-- **The arguments of a gate that takes one**: it is left out, if it may be, or it is finite. -/
theorem args_of_check {spec : ArgSpec} (hs : s.args = [spec]) (h : s.check call = .ok ()) :
    call.args = [] ∧ spec.required = false ∨ ∃ x, call.args = [x] ∧ Scalar.isFinite x = true := by
  obtain ⟨-, -, hargs, hfinite⟩ := check_eq_ok.mp h
  rw [acceptsArgs, requiredCount, hs, Bool.and_eq_true, decide_eq_true_eq, decide_eq_true_eq] at hargs
  rw [hs] at hfinite
  rcases hcall : call.args with _ | ⟨x, _ | ⟨y, ys⟩⟩
  · rw [hcall] at hargs
    refine Or.inl ⟨rfl, Bool.eq_false_iff.mpr fun hrequired => ?_⟩
    have hnone := List.countP_eq_zero.mp (Nat.le_zero.mp hargs.1)
    exact hnone spec List.mem_cons_self hrequired
  · rw [hcall] at hfinite
    exact Or.inr ⟨x, rfl, hfinite (spec, x) List.mem_cons_self⟩
  · rw [hcall] at hargs
    simp at hargs

end PulseControl.Signature
