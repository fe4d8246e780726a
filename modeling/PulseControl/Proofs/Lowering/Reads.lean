import PulseControl.Proofs.Ledger.Frame
import PulseControl.Proofs.Lowering.Calls

/-!
# What a call reads

A stage that looks at the ledger may look at every cursor and phase in it, and at the measurements. Where
every stage that comes looks at the cursors and phases of some qubits only, the ledger matters to an
expansion on these qubits only: on another ledger that agrees there the same instructions come.

* `PulseControl.Ledger.AgreeOn` – two ledgers with the same cursors and phases on some qubits;
* `PulseControl.Ledger.AgreeOn.apply` – they still agree after the same instruction;
* `PulseControl.Stage.Reads` – a stage that looks at some qubits only;
* `PulseControl.Lowerer.Expansion.transfer` – the expansion of a call on two ledgers that agree.
-/

namespace PulseControl

variable {α : Type} [Scalar α]

/-- **Two ledgers that agree on some qubits**, as far as cursors and phases go. -/
structure Ledger.AgreeOn (qs : List Qubit) (l l' : Ledger α) : Prop where
  time : ∀ q ∈ qs, l'.time q = l.time q
  phase : ∀ q ∈ qs, l'.phase q = l.phase q

namespace Ledger

variable {qs rs : List Qubit} {l l' : Ledger α}

/-- Ledgers that differ on other qubits only agree. -/
theorem SameOutside.agreeOn (h : SameOutside rs l l') (hdisjoint : ∀ q ∈ qs, q ∉ rs) :
    AgreeOn qs l l' where
  time q hq := by rw [Ledger.time, Ledger.time, h.times q (hdisjoint q hq)]
  phase q hq := by rw [Ledger.phase, Ledger.phase, h.phases q (hdisjoint q hq)]

/-- **An instruction sets the same on both ledgers.** -/
theorem AgreeOn.apply (h : AgreeOn qs l l') (i : Instruction α) :
    AgreeOn qs (l.apply i) (l'.apply i) := by
  cases i with
  | addWaveform | expand => exact h
  | setState update =>
    cases update with
    | bias | cbit => exact ⟨h.time, h.phase⟩
    | time r value =>
      refine ⟨fun q hq => ?_, h.phase⟩
      simp only [Ledger.time, Ledger.apply, Std.ExtTreeMap.getElem?_insert]
      split
      · rfl
      · exact h.time q hq
    | phase r value =>
      refine ⟨h.time, fun q hq => ?_⟩
      simp only [Ledger.phase, Ledger.apply, Std.ExtTreeMap.getElem?_insert]
      split
      · rfl
      · exact h.phase q hq

/-- The latest cursor of some qubits is the same on both. -/
theorem AgreeOn.maxTime (h : AgreeOn qs l l') (hle : rs ⊆ qs) : l'.maxTime rs = l.maxTime rs := by
  have hfold : ∀ start : α, rs.foldl (fun latest q => Scalar.max latest (l'.time q)) start =
      rs.foldl (fun latest q => Scalar.max latest (l.time q)) start := by
    induction rs with
    | nil => exact fun start => rfl
    | cons r rs ih =>
      intro start
      obtain ⟨hr, hrest⟩ := List.cons_subset.mp hle
      rw [List.foldl_cons, List.foldl_cons, h.time r hr]
      exact ih hrest _
  exact hfold 0

end Ledger

/-- **A stage that looks at some qubits only**: on ledgers that agree there it gives the same. -/
def Stage.Reads (qs : List Qubit) (stage : Stage α) : Prop :=
  ∀ l l', Ledger.AgreeOn qs l l' → stage.block l' = stage.block l

namespace Lowerer

variable {l : Lowerer α} {call : GateCall α} {stages : List (Stage α)} {is : List (Instruction α)}
  {ledger ledger' final : Ledger α} {qs : List Qubit} {C : GateCall α → Prop}

/-- **A lowerer looks at some qubits only** in the calls of a kind. -/
def Reads (l : Lowerer α) (C : GateCall α → Prop) (qs : List Qubit) : Prop :=
  ∀ call params s, C call → l.resolve call.slot = .ok params →
    l.registry.synthesize call params = .ok s → ∀ stage ∈ s.allStages, stage.Reads qs

/-- Stages that look at some qubits only stand for the same on two ledgers that agree there. -/
theorem Expands.transfer (hreads : l.Reads C qs) (h : l.Expands stages ledger is final)
    (hC : ∀ x, .expand x ∈ is → C x) (hstages : ∀ stage ∈ stages, stage.Reads qs)
    (hagree : Ledger.AgreeOn qs ledger ledger') :
    ∃ final', l.Expands stages ledger' is final' ∧ Ledger.AgreeOn qs final final' := by
  induction h generalizing ledger' with
  | done => exact ⟨ledger', .done ledger', hagree⟩
  | plain hi _ ih =>
    obtain ⟨final', hrest, hfinal⟩ := ih (fun x hx => hC x (List.mem_cons_of_mem _ hx))
      (List.forall_mem_cons.mp hstages).2 (hagree.apply _)
    exact ⟨final', .plain hi hrest, hfinal⟩
  | @deferred f stages is ledger final _ ih =>
    obtain ⟨hfirst, hrest⟩ := List.forall_mem_cons.mp hstages
    have hsame : f ledger' = f ledger := hfirst ledger ledger' hagree
    have hfixed : ∀ stage ∈ (f ledger).map Stage.emit, stage.Reads qs := by
      intro stage hstage
      obtain ⟨i, -, rfl⟩ := List.mem_map.mp hstage
      exact fun _ _ _ => rfl
    obtain ⟨final', hrest, hfinal⟩ := ih hC (List.forall_mem_append.mpr ⟨hfixed, hrest⟩) hagree
    exact ⟨final', .deferred (hsame ▸ hrest), hfinal⟩
  | @marker call params s stages inner is ledger middle final hres hs _ _ ihinner ih =>
    have hcall : C call := hC call List.mem_cons_self
    obtain ⟨middle', hinner, hmiddle⟩ := ihinner
      (fun x hx => hC x (List.mem_cons_of_mem _ (List.mem_append_left _ hx)))
      (hreads call params s hcall hres hs) hagree
    obtain ⟨final', hrest, hfinal⟩ := ih
      (fun x hx => hC x (List.mem_cons_of_mem _ (List.mem_append_right _ hx)))
      (List.forall_mem_cons.mp hstages).2 hmiddle
    exact ⟨final', .marker hres hs hinner hrest, hfinal⟩

/-- **A call that looks at some qubits only has the same expansion** on two ledgers that agree there. -/
theorem Expansion.transfer (hreads : l.Reads C qs) (h : l.Expansion call ledger is final)
    (hcall : C call) (hC : ∀ x, .expand x ∈ is → C x) (hagree : Ledger.AgreeOn qs ledger ledger') :
    ∃ final', l.Expansion call ledger' is final' := by
  obtain ⟨params, s, hres, hs, hexpands⟩ := h
  obtain ⟨final', hexpands', -⟩ := hexpands.transfer hreads hC (hreads call params s hcall hres hs) hagree
  exact ⟨final', params, s, hres, hs, hexpands'⟩

end Lowerer

end PulseControl
