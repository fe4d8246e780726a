import PulseControl.Proofs.StandardGates.GeneralRotation
import PulseControl.Proofs.StandardGates.Matrices
import PulseControl.Proofs.Registry.Leaves

/-!
# The composite gates compute what they are named after

A composite gate is a short table of steps with symbolic arguments. Whether it is the gate of its name is
a question about matrices: the primitive calls behind it are read as matrices, which are multiplied in
the order of the calls, the first call standing rightmost. On one qubit every primitive call is a
rotation or a phase. On two qubits such a call acts on one of them, and the only call on both is the
controlled phase.

A gate is right up to a phase of the whole, which no measurement shows. That of a general rotation is
half of its first angle; it appears once in `H` and twice in `CX`.

* `PulseControl.StandardGates.ReadsOn`, `PulseControl.StandardGates.ReadsOnPair` – primitive calls read as
  matrices;
* `PulseControl.StandardGates.Computes` – the matrix of a sequence of calls;
* `PulseControl.StandardGates.composites_compute` – the composite gates and their matrices.
-/

namespace PulseControl

open scoped Real Kronecker

namespace StandardGates

open Complex (I)
open Composites (general quarterCall shiftCall generalCalls)
open Matrices (Single Double)

/-! ### Calls as matrices -/

/-- **A primitive call on one qubit read as a matrix.** -/
@[mk_iff]
inductive ReadsOn (q : Qubit) : GateCall ℝ → Single → Prop
  /-- A rotation about an axis in the equatorial plane. -/
  | rotation (t f : ℝ) : ReadsOn q ⟨.plain "rfUnitary", [q], [t, f]⟩ (Matrices.rotation t f)
  /-- A phase. -/
  | phase (a : ℝ) : ReadsOn q ⟨.plain "P", [q], [a]⟩ (Matrices.phase a)

/-- **A primitive call on one or both of two qubits read as a matrix.** -/
inductive ReadsOnPair (a b : Qubit) : GateCall ℝ → Double → Prop
  /-- A call on the first qubit leaves the second one alone. -/
  | first {call : GateCall ℝ} {m : Single} : ReadsOn a call m → ReadsOnPair a b call (m ⊗ₖ 1)
  /-- A call on the second qubit leaves the first one alone. -/
  | second {call : GateCall ℝ} {m : Single} : ReadsOn b call m → ReadsOnPair a b call (1 ⊗ₖ m)
  /-- The controlled phase. -/
  | controlledPhase : ReadsOnPair a b ⟨.plain "CZ", [a, b], []⟩ Matrices.controlledPhase

theorem ReadsOn.targets {q : Qubit} {call : GateCall ℝ} {m : Single} (h : ReadsOn q call m) :
    call.targets = [q] := by
  cases h <;> rfl

/-- A call on one qubit is read in one way. -/
theorem readsOn_rightUnique (q : Qubit) : Relator.RightUnique (ReadsOn q) := by
  intro call m m' h h'
  rw [readsOn_iff] at h h'
  rcases h with ⟨t, f, rfl, rfl⟩ | ⟨a, rfl, rfl⟩ <;>
    rcases h' with ⟨t', f', hcall, rfl⟩ | ⟨a', hcall, rfl⟩ <;>
    simp [GateKey.plain] at hcall
  · rw [hcall.1, hcall.2]
  · rw [hcall]

/-- A call on two different qubits is read in one way: its targets tell on which of them it acts. -/
theorem readsOnPair_rightUnique {a b : Qubit} (hab : a ≠ b) :
    Relator.RightUnique (ReadsOnPair a b) := by
  intro call m m' h h'
  cases h with
  | first h =>
    cases h' with
    | first h' => rw [readsOn_rightUnique a h h']
    | second h' => exact absurd (List.head_eq_of_cons_eq (h.targets.symm.trans h'.targets)) hab
    | controlledPhase => cases h.targets
  | second h =>
    cases h' with
    | first h' => exact absurd (List.head_eq_of_cons_eq (h'.targets.symm.trans h.targets)) hab
    | second h' => rw [readsOn_rightUnique b h h']
    | controlledPhase => cases h.targets
  | controlledPhase =>
    cases h' with
    | first h' => cases h'.targets
    | second h' => cases h'.targets
    | controlledPhase => rfl

section Computes

variable {n : Type} [Fintype n] [DecidableEq n] {r : Registry ℝ}
  {reads : GateCall ℝ → Matrix n n ℂ → Prop}

/-- **The matrix of some calls**: that of the primitive calls behind them, multiplied in the order of
the calls. -/
def Computes (r : Registry ℝ) (reads : GateCall ℝ → Matrix n n ℂ → Prop) (calls : List (GateCall ℝ))
    (m : Matrix n n ℂ) : Prop :=
  ∃ leaves ms, r.Leaves calls leaves ∧ List.Forall₂ reads leaves ms ∧ ms.reverse.prod = m

/-- A primitive call has the matrix that it is read as. -/
theorem Computes.primitive {call : GateCall ℝ} {m : Matrix n n ℂ} {schema : ParamSchema ℝ}
    {procedure : Procedure ℝ} (hcheck : r.checkCall call = .ok (.primitive schema procedure))
    (hread : reads call m) : Computes r reads [call] m :=
  ⟨[call], [m], .primitive hcheck .nil, .cons hread .nil, List.prod_singleton⟩

/-- A compound call has the matrix of its steps. -/
theorem Computes.compound {call : GateCall ℝ} {inner : List (GateCall ℝ)} {m : Matrix n n ℂ}
    {signature : Signature} {steps : List (Step ℝ)}
    (hcheck : r.checkCall call = .ok (.compound signature steps))
    (hinner : (steps.mapM fun step => step.bind call signature) = .ok inner)
    (h : Computes r reads inner m) : Computes r reads [call] m := by
  obtain ⟨below, ms, hbelow, hreads, rfl⟩ := h
  refine ⟨below, ms, ?_, hreads, rfl⟩
  simpa using Registry.Leaves.compound hcheck hinner hbelow .nil

/-- A call that is made first acts first. -/
theorem Computes.cons {call : GateCall ℝ} {calls : List (GateCall ℝ)} {m m' : Matrix n n ℂ}
    (h : Computes r reads [call] m) (h' : Computes r reads calls m') :
    Computes r reads (call :: calls) (m' * m) := by
  obtain ⟨leaves, ms, hleaves, hreads, rfl⟩ := h
  obtain ⟨leaves', ms', hleaves', hreads', rfl⟩ := h'
  refine ⟨leaves ++ leaves', ms ++ ms', hleaves.append hleaves', List.rel_append hreads hreads', ?_⟩
  rw [List.reverse_append, List.prod_append]

/-- **Calls have at most one matrix**, where each primitive call is read as one. -/
theorem Computes.unique {calls : List (GateCall ℝ)} {m m' : Matrix n n ℂ}
    (hreads : Relator.RightUnique reads) (h : Computes r reads calls m)
    (h' : Computes r reads calls m') : m = m' := by
  obtain ⟨leaves, ms, hleaves, hms, rfl⟩ := h
  obtain ⟨leaves', ms', hleaves', hms', rfl⟩ := h'
  obtain rfl := hleaves.deterministic hleaves'
  rw [hreads.forall₂ hms hms']

end Computes

/-- Calls on the second qubit of two. -/
theorem Computes.second {r : Registry ℝ} {a b : Qubit} {calls : List (GateCall ℝ)} {m : Single}
    (h : Computes r (ReadsOn b) calls m) : Computes r (ReadsOnPair a b) calls (1 ⊗ₖ m) := by
  obtain ⟨leaves, ms, hleaves, hreads, rfl⟩ := h
  refine ⟨leaves, ms.map fun m => 1 ⊗ₖ m, hleaves, ?_, ?_⟩
  · exact List.forall₂_map_right_iff.mpr (hreads.imp fun _ _ => .second)
  · -- a product of matrices beside the identity, factor by factor in the order of multiplication
    clear hreads
    rw [← List.map_reverse]
    induction ms.reverse with
    | nil => rw [List.map_nil, List.prod_nil, List.prod_nil, Matrix.one_kronecker_one]
    | cons m ms ih =>
      rw [List.map_cons, List.prod_cons, ih, ← Matrix.mul_kronecker_mul, one_mul, List.prod_cons]

/-! ### The composite gates -/

/-- Over exact scalars a call of a gate of the library passes with the right numbers of targets, all
different, and of arguments. -/
theorem Extended.checkCall_of_mem {α : Type} [ExactScalar α] {r : Registry α} (hr : Extended r)
    {call : GateCall α} {d : GateDefinition α} (hmem : (call.key, d) ∈ definitions)
    (hshape : (d.signature.arity.accepts call.targets.length &&
      d.signature.acceptsArgs call.args.length) = true)
    (hnodup : call.targets.Nodup) : r.checkCall call = .ok d := by
  obtain ⟨harity, hargs⟩ := Bool.and_eq_true_iff.mp hshape
  exact Registry.checkCall_eq_ok.mpr ⟨hr.get?_of_mem hmem,
    Signature.check_eq_ok.mpr ⟨harity, hnodup, hargs, fun p _ => ExactScalar.isFinite_eq p.2⟩⟩

variable {r : Registry ℝ} {q : Qubit}

theorem Extended.computes_rotation (hr : Extended r) (t f : ℝ) :
    Computes r (ReadsOn q) [⟨.plain "rfUnitary", [q], [t, f]⟩] (Matrices.rotation t f) := by
  have hmem : (GateKey.plain "rfUnitary",
      .primitive DriveRotation.schema DriveRotation.procedure) ∈ definitions (α := ℝ) := by
    simp [definitions, primitives]
  exact .primitive (hr.checkCall_of_mem hmem rfl (List.nodup_singleton q)) (.rotation t f)

theorem Extended.computes_phase (hr : Extended r) (a : ℝ) :
    Computes r (ReadsOn q) [⟨.plain "P", [q], [a]⟩] (Matrices.phase a) := by
  have hmem : (GateKey.plain "P", .primitive [] PhaseShift.procedure) ∈ definitions (α := ℝ) := by
    simp [definitions, primitives]
  exact .primitive (hr.checkCall_of_mem hmem rfl (List.nodup_singleton q)) (.phase a)

/-- A general rotation is two quarter turns and a phase. -/
theorem Extended.computes_general (hr : Extended r) (theta phi lambda : ℝ) :
    Computes r (ReadsOn q) [general q theta phi lambda]
      (phasor (theta / 2) • Matrices.general theta phi lambda) := by
  have hmem : (GateKey.plain "U",
      .compound Composites.generalSignature Composites.generalSteps) ∈ definitions (α := ℝ) := by
    simp [definitions, Composites.all]
  have hquarter (f : ℝ) : Computes r (ReadsOn q) [quarterCall q f] (Matrices.rotation (π / 2) f) := by
    rw [quarterCall, scalar_pi_real, Waveform.two_eq]
    exact hr.computes_rotation (π / 2) f
  rw [← Matrices.quarter_turns_eq_general]
  refine .compound (hr.checkCall_of_mem hmem rfl (List.nodup_singleton q))
    (Composites.bind_generalSteps q theta phi lambda) ?_
  exact (hquarter _).cons ((hquarter _).cons (hr.computes_phase _))

/-- A general rotation under its other name. -/
theorem Extended.computes_u3 (hr : Extended r) (theta phi lambda : ℝ) :
    Computes r (ReadsOn q) [⟨.plain "u3", [q], [theta, phi, lambda]⟩]
      (phasor (theta / 2) • Matrices.general theta phi lambda) := by
  have hmem : (GateKey.plain "u3", .compound Composites.generalSignature
      [Composites.step "U" [0] [Composites.arg "theta", Composites.arg "phi",
        Composites.arg "lambda"]]) ∈ definitions (α := ℝ) := by
    simp [definitions, Composites.all]
  refine .compound (hr.checkCall_of_mem hmem rfl (List.nodup_singleton q)) ?_
    (hr.computes_general theta phi lambda)
  exact Except.mapM_eq_ok.mpr
    (.cons (Step.bind_of_eval rfl (.cons rfl (.cons rfl (.cons rfl .nil)))) .nil)

theorem Extended.computes_hadamard (hr : Extended r) :
    Computes r (ReadsOn q) [⟨.plain "H", [q], []⟩] (phasor (π / 4) • Matrices.hadamard) := by
  have hmem : (GateKey.plain "H", .compound (Signature.qubits 1)
      [Composites.step "U" [0] [Composites.quarterTurn, .const 0, .pi]]) ∈
        definitions (α := ℝ) := by
    simp [definitions, Composites.all]
  have hbound : [Composites.step "U" [0] [Composites.quarterTurn, .const (0 : ℝ), .pi]].mapM
      (fun step => step.bind ⟨.plain "H", [q], []⟩ (Signature.qubits 1)) =
        .ok [general q (Scalar.pi / 2.0) 0 Scalar.pi] :=
    Except.mapM_eq_ok.mpr
      (.cons (Step.bind_of_eval rfl (.cons rfl (.cons rfl (.cons rfl .nil)))) .nil)
  have hquarter : (π / 4 : ℝ) = π / 2 / 2 := by ring
  -- the arguments as the evaluation of the step leaves them, and as real numbers
  rw [scalar_pi_real, Waveform.two_eq] at hbound
  rw [← Matrices.general_hadamard, hquarter]
  exact .compound (hr.checkCall_of_mem hmem rfl (List.nodup_singleton q)) hbound
    (hr.computes_general (π / 2) 0 π)

/-- A controlled flip is a controlled phase between two exchanges of the axes of its target. The phases
of the exchanges add up to a quarter turn. -/
theorem Extended.computes_controlledFlip (hr : Extended r) {a b : Qubit} (hab : a ≠ b) :
    Computes r (ReadsOnPair a b) [⟨.plain "CX", [a, b], []⟩]
      (I • Matrices.controlled Matrices.pauliX) := by
  have hmem : (GateKey.plain "CX", .compound (Signature.qubits 2)
      [Composites.step "H" [1] [], Composites.step "CZ" [0, 1] [], Composites.step "H" [1] []]) ∈
        definitions (α := ℝ) := by
    simp [definitions, Composites.all]
  have hphase : (GateKey.plain "CZ", .primitive FluxPulse.schema FluxPulse.procedure) ∈
      definitions (α := ℝ) := by
    simp [definitions, primitives]
  have hdistinct : [a, b].Nodup := by simpa using hab
  have hmiddle : Computes r (ReadsOnPair a b) [⟨.plain "CZ", [a, b], []⟩] Matrices.controlledPhase :=
    .primitive (hr.checkCall_of_mem hphase rfl hdistinct) .controlledPhase
  have hexchange := (hr.computes_hadamard (q := b)).second (a := a)
  have hproduct : I • Matrices.controlled Matrices.pauliX =
      (1 : Single) ⊗ₖ (phasor (π / 4) • Matrices.hadamard) * Matrices.controlledPhase *
        (1 : Single) ⊗ₖ (phasor (π / 4) • Matrices.hadamard) := by
    have hquarter : (π / 2 : ℝ) = π / 4 + π / 4 := by ring
    rw [Matrix.kronecker_smul, smul_mul_assoc, smul_mul_smul_comm,
      Matrices.hadamard_controlledPhase_hadamard, ← phasor_add, ← hquarter, phasor_pi_div_two]
  rw [hproduct]
  refine .compound (hr.checkCall_of_mem hmem rfl hdistinct) ?_
    (hexchange.cons (hmiddle.cons hexchange))
  exact Except.mapM_eq_ok.mpr (.cons (Step.bind_of_eval rfl .nil)
    (.cons (Step.bind_of_eval rfl .nil) (.cons (Step.bind_of_eval rfl .nil) .nil)))

/-- A rotation by fixed angles, given in multiples of `π`. -/
theorem Extended.computes_fixedRotation (hr : Extended r) {name : String} {turn axis : ℝ}
    (h : Composites.fixedRotation name turn axis ∈ Composites.fixedRotations (α := ℝ)) :
    Computes r (ReadsOn q) [⟨.plain name, [q], []⟩] (Matrices.rotation (turn * π) (axis * π)) := by
  have hmem : Composites.fixedRotation name turn axis ∈ definitions (α := ℝ) :=
    List.mem_append_right _ (List.mem_append_left _ h)
  refine .compound (hr.checkCall_of_mem hmem rfl (List.nodup_singleton q)) ?_
    (hr.computes_rotation (turn * π) (axis * π))
  exact Except.mapM_eq_ok.mpr (.cons (Step.bind_of_eval rfl (.cons rfl (.cons rfl .nil))) .nil)

theorem Extended.computes_fixedTurn (hr : Extended r) {name : String} {axis : Single} {angle : ℝ}
    (h : (name, axis, angle) ∈ Matrices.fixedTurns) :
    Computes r (ReadsOn q) [⟨.plain name, [q], []⟩] (Matrices.about axis angle) := by
  have hliteral : @OfScientific.ofScientific ℝ Scalar.toOfScientific 5 true 1 = 1 / 2 := by
    rw [ExactScalar.ofScientific_eq]
    norm_num
  have hgate {name : String} {axis : Single} {angle f : ℝ} (turn multiple : ℝ)
      (hmem : Composites.fixedRotation name turn multiple ∈ Composites.fixedRotations (α := ℝ))
      (hturn : turn * π = angle) (hmultiple : multiple * π = f)
      (haxis : Matrices.rotation angle f = Matrices.about axis angle) :
      Computes r (ReadsOn q) [⟨.plain name, [q], []⟩] (Matrices.about axis angle) := by
    rw [← haxis, ← hturn, ← hmultiple]
    exact hr.computes_fixedRotation hmem
  have hhalf : (1 / 2 : ℝ) * π = π / 2 := by ring
  have hback : -(1 / 2 : ℝ) * π = -(π / 2) := by ring
  simp only [Composites.fixedRotations, hliteral] at hgate
  simp only [Matrices.fixedTurns, List.mem_cons, List.not_mem_nil, or_false, Prod.mk.injEq] at h
  obtain ⟨rfl, rfl, rfl⟩ | ⟨rfl, rfl, rfl⟩ | ⟨rfl, rfl, rfl⟩ | ⟨rfl, rfl, rfl⟩ | ⟨rfl, rfl, rfl⟩ |
    ⟨rfl, rfl, rfl⟩ | ⟨rfl, rfl, rfl⟩ | ⟨rfl, rfl, rfl⟩ := h
  · exact hgate 1 0 (by simp) (one_mul π) (zero_mul π) (Matrices.rotation_zero π)
  · exact hgate 1 (1 / 2) (by simp) (one_mul π) hhalf (Matrices.rotation_half_pi π)
  · exact hgate 1 1 (by simp) (one_mul π) (one_mul π) (Matrices.rotation_pi π)
  · exact hgate 1 (-(1 / 2)) (by simp) (one_mul π) hback (Matrices.rotation_neg_half_pi π)
  · exact hgate (1 / 2) 0 (by simp) hhalf (zero_mul π) (Matrices.rotation_zero (π / 2))
  · exact hgate (1 / 2) (1 / 2) (by simp) hhalf hhalf (Matrices.rotation_half_pi (π / 2))
  · exact hgate (1 / 2) 1 (by simp) hhalf (one_mul π) (Matrices.rotation_pi (π / 2))
  · exact hgate (1 / 2) (-(1 / 2)) (by simp) hhalf hback (Matrices.rotation_neg_half_pi (π / 2))

/-- **The composite gates compute the gates they are named after.** In a registry of the library and any
compound gates, the primitive calls behind `U` and `u3`, multiplied in the order of the calls, give the
general rotation by the three angles, up to a phase of half the first one; those behind `H` give the
Hadamard matrix, and those behind `CX` the controlled flip, each up to a fixed phase of the whole; and
the eight rotations by fixed angles are rotations by `π` or `π/2` about the axes of their names. -/
theorem composites_compute (hr : Extended r) (q : Qubit) :
    (∀ name ∈ ["U", "u3"], ∀ theta phi lambda : ℝ,
      Computes r (ReadsOn q) [⟨.plain name, [q], [theta, phi, lambda]⟩]
        (phasor (theta / 2) •
          !![(Real.cos (theta / 2) : ℂ), -phasor lambda * Real.sin (theta / 2);
            phasor phi * Real.sin (theta / 2), phasor (phi + lambda) * Real.cos (theta / 2)])) ∧
      Computes r (ReadsOn q) [⟨.plain "H", [q], []⟩] (phasor (π / 4) • Matrices.hadamard) ∧
      (∀ target, q ≠ target →
        Computes r (ReadsOnPair q target) [⟨.plain "CX", [q, target], []⟩]
          (I • Matrices.controlled Matrices.pauliX)) ∧
      ∀ name axis angle, (name, axis, angle) ∈ Matrices.fixedTurns →
        Computes r (ReadsOn q) [⟨.plain name, [q], []⟩] (Matrices.about axis angle) := by
  refine ⟨?_, hr.computes_hadamard, fun _ => hr.computes_controlledFlip,
    fun _ _ _ => hr.computes_fixedTurn⟩
  intro name hname theta phi lambda
  obtain rfl | rfl : name = "U" ∨ name = "u3" := by simpa using hname
  · exact hr.computes_general theta phi lambda
  · exact hr.computes_u3 theta phi lambda

/-- The library without further gates. -/
theorem composites_compute_library : Extended realLowerer.registry ∧
    Computes realLowerer.registry (ReadsOn "Q0") [⟨.plain "H", ["Q0"], []⟩]
      (phasor (π / 4) • Matrices.hadamard) :=
  ⟨extended_realLowerer, (composites_compute extended_realLowerer "Q0").2.1⟩

end StandardGates

end PulseControl
