import PulseControl.Proofs.Except
import PulseControl.StandardGates.Library

/-!
# What the procedures of the library give

Every procedure looks up its targets and arguments, reads its parameters and then gives one synthesis,
made of a stage or two. This is said once for each of them, so that no other proof has to go through the
order in which a procedure asks for things.

* `PulseControl.DriveRotation.of_synthesize` and the like – the synthesis of each procedure;
* `PulseControl.GateCall.target_eq_ok` – the targets of a call by their positions;
* `PulseControl.StandardGates.Standard` – all procedures of the library;
* `PulseControl.Readout.of_mem_play`, `PulseControl.CrossResonance.of_mem_pass` and
  `PulseControl.Barrier.of_mem_align` – the instructions of a measurement, of a pass and of a barrier.
-/

namespace PulseControl

variable {α : Type}

theorem GateCall.target_eq_ok {call : GateCall α} {i : Nat} {q : Qubit} :
    (call.target i : Except (GateError α) Qubit) = .ok q ↔ call.targets[i]? = some q := by
  rw [target]
  cases call.targets[i]? <;> simp

/-- A target that is looked up is one of the targets. -/
theorem GateCall.target_mem {call : GateCall α} {i : Nat} {q : Qubit}
    (h : (call.target i : Except (GateError α) Qubit) = .ok q) : q ∈ call.targets :=
  List.mem_of_getElem? (target_eq_ok.mp h)

/-- Targets at different positions are different, if all targets are. -/
theorem GateCall.target_ne {call : GateCall α} (hnodup : call.targets.Nodup) {i j : Nat} {a b : Qubit}
    (ha : (call.target i : Except (GateError α) Qubit) = .ok a)
    (hb : (call.target j : Except (GateError α) Qubit) = .ok b) (hij : i ≠ j) : a ≠ b := by
  rw [target_eq_ok] at ha hb
  rintro rfl
  obtain ⟨hlt, -⟩ := List.getElem?_eq_some_iff.mp ha
  exact hij ((List.getElem?_inj hlt hnodup).mp (ha.trans hb.symm))

variable [Scalar α] {call : GateCall α} {params : Params α} {s : Synthesis α}

/-- A rotation plays one pulse, or nothing where there is nothing to play. -/
theorem DriveRotation.of_synthesize (h : procedure.synthesize call params = .ok s) :
    ∃ q theta phi p, call.target 0 = .ok q ∧ Pulse.ofParams params theta phi = .ok p ∧
      (p.isEmpty = true ∧ s = ∅ ∨ p.isEmpty = false ∧ s = .defer (p.play q)) := by
  simp only [procedure, Except.bind_eq_ok] at h
  obtain ⟨q, hq, theta, -, phi, -, p, hp, h⟩ := h
  refine ⟨q, theta, phi, p, hq, hp, ?_⟩
  split at h
  · next hempty => exact Or.inl ⟨hempty, (Except.ok.inj h).symm⟩
  · next hplays => exact Or.inr ⟨Bool.eq_false_iff.mpr hplays, (Except.ok.inj h).symm⟩

/-- A measurement plays one pulse and records its slot under the bit that its argument asks for. -/
theorem Readout.of_synthesize (h : procedure.synthesize call params = .ok s) :
    ∃ q choice p, call.target 0 = .ok q ∧ BitChoice.ofCall call = .ok choice ∧
      Pulse.ofParams params = .ok p ∧ s = .defer (play p choice q) := by
  simp only [procedure, Except.bind_eq_ok] at h
  obtain ⟨q, hq, choice, hchoice, p, hp, h⟩ := h
  exact ⟨q, choice, p, hq, hchoice, hp, (Except.ok.inj h).symm⟩

/-- The plain variant is one pass. -/
theorem CrossResonance.of_synthesize_direct
    (h : (procedure .direct).synthesize call params = .ok s) :
    ∃ p control target, Pulse.ofParams params = .ok p ∧ call.target 0 = .ok control ∧
      call.target 1 = .ok target ∧ s = .defer (pass p control target 1) := by
  simp only [procedure, Except.bind_eq_ok] at h
  obtain ⟨p, hp, control, hcontrol, target, htarget, h⟩ := h
  exact ⟨p, control, target, hp, hcontrol, htarget, (Except.ok.inj h).symm⟩

/-- The echoed variant is two passes with opposite signs, each with a flip of the control behind it. -/
theorem CrossResonance.of_synthesize_echoed
    (h : (procedure .echoed).synthesize call params = .ok s) :
    ∃ p control target, Pulse.ofParams params = .ok p ∧ call.target 0 = .ok control ∧
      call.target 1 = .ok target ∧
      s = ⟨[.deferred (pass p control target 1), .emit (.expand ⟨echoGate, [control], []⟩),
        .deferred (pass p control target (-1)), .emit (.expand ⟨echoGate, [control], []⟩)], []⟩ := by
  simp only [procedure, Except.bind_eq_ok] at h
  obtain ⟨p, hp, control, hcontrol, target, htarget, h⟩ := h
  exact ⟨p, control, target, hp, hcontrol, htarget, (Except.ok.inj h).symm⟩

/-- A flux pulse is one stage on both of its qubits. -/
theorem FluxPulse.of_synthesize (h : procedure.synthesize call params = .ok s) :
    ∃ a b p, call.target 0 = .ok a ∧ call.target 1 = .ok b ∧ Pulse.ofParams params = .ok p ∧
      s = .defer (play p a b) := by
  simp only [procedure, Except.bind_eq_ok] at h
  obtain ⟨a, ha, b, hb, p, hp, h⟩ := h
  exact ⟨a, b, p, ha, hb, hp, (Except.ok.inj h).symm⟩

/-- A phase shift sets the phase of its qubit. -/
theorem PhaseShift.of_synthesize (h : PhaseShift.procedure.synthesize call params = .ok s) :
    ∃ q theta, call.target 0 = .ok q ∧
      s = .defer fun l => [.setPhase q (l.phase q + theta)] := by
  simp only [PhaseShift.procedure, Except.bind_eq_ok] at h
  obtain ⟨q, hq, theta, -, h⟩ := h
  exact ⟨q, theta, hq, (Except.ok.inj h).symm⟩

/-- A delay sets the cursor of its qubit, by a time that is not negative. -/
theorem Delay.of_synthesize (h : Delay.procedure.synthesize call params = .ok s) :
    ∃ q duration, call.target 0 = .ok q ∧ ¬duration < 0 ∧
      s = .defer fun l => [.setTime q (l.time q + duration)] := by
  simp only [Delay.procedure, Except.bind_eq_ok] at h
  obtain ⟨q, hq, duration, -, h⟩ := h
  split at h
  · cases h
  · next hduration =>
    exact ⟨q, duration, hq, fun hneg => hduration (Or.inr hneg), (Except.ok.inj h).symm⟩

/-- A barrier aligns the cursors of its targets. -/
theorem Barrier.of_synthesize (h : Barrier.procedure.synthesize call params = .ok s) :
    s = .defer (Barrier.align call.targets) :=
  (Except.ok.inj h).symm

/-! ### What the stages of the library give -/

/-- The instructions of a measurement: a pulse, a bias, at most one slot, the cursor and the phase. -/
theorem Readout.of_mem_play {p : Pulse α} {choice : BitChoice} {q : Qubit} {l : Ledger α}
    {i : Instruction α} (h : i ∈ play p choice q l) :
    (∃ w, i = .addWaveform (.readout q) w) ∨ i = .setBias (.flux q) p.bias ∨
      (∃ bit, choice.bit? l = some bit ∧ i = .setCbit (p.task q bit (l.time q))) ∨
      i = .setTime q (l.time q + p.duration) ∨ i = .setPhase q 0 := by
  simp only [play, List.mem_append, List.mem_cons, List.not_mem_nil, or_false] at h
  rcases h with ((h | h) | h) | h | h
  · exact Or.inl ⟨_, h⟩
  · exact Or.inr (Or.inl h)
  · cases hbit : choice.bit? l with
    | none =>
      rw [hbit] at h
      cases h
    | some bit =>
      rw [hbit] at h
      exact Or.inr (Or.inr (Or.inl ⟨bit, rfl, List.mem_singleton.mp h⟩))
  · exact Or.inr (Or.inr (Or.inr (Or.inl h)))
  · exact Or.inr (Or.inr (Or.inr (Or.inr h)))

/-- The instructions of a pass: for each of its two qubits a pulse on the drive line and the cursor, if
there is something to play, and the phase. -/
theorem CrossResonance.of_mem_pass {p : Pulse α} {control target : Qubit} {sign : α} {l : Ledger α}
    {i : Instruction α} (h : i ∈ pass p control target sign l) :
    ∃ q ∈ [control, target], (∃ w, i = .addWaveform (.drive q) w) ∨
      i = .setTime q (p.finish (l.maxTime [control, target])) ∨ ∃ value, i = .setPhase q value := by
  have hcontrol : control ∈ [control, target] := List.mem_cons_self
  have htarget : target ∈ [control, target] := List.mem_cons_of_mem _ List.mem_cons_self
  simp only [pass, List.mem_append, List.mem_cons, List.not_mem_nil, or_false] at h
  rcases h with (h | h) | h | h
  · rw [Pulse.onControl] at h
    split at h
    · simp only [List.mem_cons, List.not_mem_nil, or_false] at h
      exact ⟨control, hcontrol, h.imp (fun h => ⟨_, h⟩) Or.inl⟩
    · cases h
  · rw [Pulse.onTarget] at h
    split at h
    · simp only [List.mem_cons, List.not_mem_nil, or_false] at h
      exact ⟨target, htarget, h.imp (fun h => ⟨_, h⟩) Or.inl⟩
    · cases h
  · exact ⟨control, hcontrol, Or.inr (Or.inr ⟨_, h⟩)⟩
  · exact ⟨target, htarget, Or.inr (Or.inr ⟨_, h⟩)⟩

/-- The instructions of a barrier: the cursor of some of its qubits. -/
theorem Barrier.of_mem_align {qs : List Qubit} {l : Ledger α} {i : Instruction α} (h : i ∈ align qs l) :
    ∃ q ∈ qs, i = .setTime q (l.maxTime qs) := by
  obtain ⟨q, hq, rfl⟩ := List.mem_map.mp h
  exact ⟨q, (List.mem_filter.mp hq).1, rfl⟩

/-! ### All procedures of the library -/

namespace StandardGates

/-- **The procedures of the library**, each with the parameters that it is registered with. Only the
measurement has to be known by its key as well. -/
inductive Standard : GateKey → ParamSchema α → Procedure α → Prop where
  | rotation (key : GateKey) : Standard key DriveRotation.schema DriveRotation.procedure
  | readout : Standard (.plain "Measure") Readout.schema Readout.procedure
  | cross (key : GateKey) (variant : CrossResonance.Variant) :
    Standard key CrossResonance.schema (CrossResonance.procedure variant)
  | flux (key : GateKey) : Standard key FluxPulse.schema FluxPulse.procedure
  | phase (key : GateKey) : Standard key [] PhaseShift.procedure
  | delay (key : GateKey) : Standard key [] Delay.procedure
  | barrier (key : GateKey) : Standard key [] Barrier.procedure

/-- The primitive gates of the library have these procedures. -/
theorem standard_of_mem {key : GateKey} {schema : ParamSchema α} {procedure : Procedure α}
    (hmem : (key, .primitive schema procedure) ∈ primitives (α := α)) :
    Standard key schema procedure := by
  simp only [primitives, List.mem_cons, List.not_mem_nil, or_false, Prod.mk.injEq,
    GateDefinition.primitive.injEq] at hmem
  rcases hmem with ⟨-, rfl, rfl⟩ | ⟨-, rfl, rfl⟩ | ⟨-, rfl, rfl⟩ | ⟨rfl, rfl, rfl⟩ | ⟨-, rfl, rfl⟩ |
    ⟨-, rfl, rfl⟩ | ⟨-, rfl, rfl⟩ | ⟨-, rfl, rfl⟩ | ⟨-, rfl, rfl⟩ | ⟨-, rfl, rfl⟩ | ⟨-, rfl, rfl⟩
  · exact .rotation _
  · exact .rotation _
  · exact .rotation _
  · exact .readout
  · exact .cross _ .direct
  · exact .cross _ .echoed
  · exact .flux _
  · exact .flux _
  · exact .phase _
  · exact .delay _
  · exact .barrier _

end StandardGates

end PulseControl
