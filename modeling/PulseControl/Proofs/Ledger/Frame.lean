import PulseControl.Ledger

/-!
# What an instruction leaves alone

An instruction concerns the qubits of its channel, the qubit that it sets, or the targets of its marker,
and what it does to a ledger stays among these: cursors and phases of other qubits, and biases of channels
that belong to other qubits, are as before. Measurements are kept under their bits, which belong to no
qubit; only the bit that is written changes.

* `PulseControl.Instruction.qubits` – the qubits that an instruction concerns;
* `PulseControl.Instruction.Within` – an instruction that concerns only some qubits, and some of them
  unless it is a marker;
* `PulseControl.Ledger.SameOutside` – two ledgers that differ only on some qubits;
* `PulseControl.Ledger.sameOutside_applyAll`, `PulseControl.Ledger.measures_applyAll` – what instructions
  leave alone.
-/

namespace PulseControl

variable {α : Type}

namespace Instruction

/-- **The qubits that an instruction concerns.** -/
def qubits : Instruction α → List Qubit
  | .addWaveform c _ => c.qubits
  | .setState (.time q _) => [q]
  | .setState (.phase q _) => [q]
  | .setState (.bias c _) => c.qubits
  | .setState (.cbit task) => [task.qubit]
  | .expand call => call.targets

theorem touches_iff {i : Instruction α} {q : Qubit} : i.touches q = true ↔ q ∈ i.qubits := by
  cases i with
  | addWaveform | expand => exact List.contains_iff_mem
  | setState update =>
    cases update with
    | time | phase | cbit => simp [touches, qubits, eq_comm]
    | bias => exact List.contains_iff_mem

/-- **An instruction that concerns only some qubits**, and one of them at least unless it is a marker. -/
structure Within (qs : List Qubit) (i : Instruction α) : Prop where
  subset : i.qubits ⊆ qs
  addressed : i.isExpand = false → i.qubits ≠ []

variable {qs rs : List Qubit} {q : Qubit} {c : Channel} {value : α} {i j : Instruction α}

theorem Within.mono (h : i.Within qs) (hle : qs ⊆ rs) : i.Within rs :=
  ⟨List.Subset.trans h.subset hle, h.addressed⟩

theorem within_setTime (h : q ∈ qs) : (setTime q value).Within qs :=
  ⟨List.cons_subset.mpr ⟨h, List.nil_subset _⟩, fun _ => List.cons_ne_nil _ _⟩

theorem within_setPhase (h : q ∈ qs) : (setPhase q value).Within qs :=
  ⟨List.cons_subset.mpr ⟨h, List.nil_subset _⟩, fun _ => List.cons_ne_nil _ _⟩

theorem within_setCbit {task : MeasurementTask α} (h : task.qubit ∈ qs) : (setCbit task).Within qs :=
  ⟨List.cons_subset.mpr ⟨h, List.nil_subset _⟩, fun _ => List.cons_ne_nil _ _⟩

theorem within_setBias (h : c.qubits ⊆ qs) (hne : c.qubits ≠ []) : (setBias c value).Within qs :=
  ⟨h, fun _ => hne⟩

theorem within_addWaveform {w : Waveform α} (h : c.qubits ⊆ qs) (hne : c.qubits ≠ []) :
    (addWaveform c w).Within qs :=
  ⟨h, fun _ => hne⟩

theorem within_expand {call : GateCall α} (h : call.targets ⊆ qs) : (expand call).Within qs :=
  ⟨h, fun hplain => (by cases hplain)⟩

/-- A channel that belongs to some of the qubits involves one of them. -/
theorem exists_involves (h : c.qubits ⊆ qs) (hne : c.qubits ≠ []) : ∃ q ∈ qs, c.involves q = true := by
  obtain ⟨q, hq⟩ := List.exists_mem_of_ne_nil _ hne
  exact ⟨q, h hq, List.contains_iff_mem.mpr hq⟩

end Instruction

namespace Ledger

/-- **Two ledgers that differ only on some qubits**, as far as cursors, phases and biases go. -/
structure SameOutside (qs : List Qubit) (l l' : Ledger α) : Prop where
  times : ∀ q ∉ qs, l'.times[q]? = l.times[q]?
  phases : ∀ q ∉ qs, l'.phases[q]? = l.phases[q]?
  biases : ∀ c : Channel, (∀ q ∈ qs, c.involves q = false) → l'.biases[c]? = l.biases[c]?

variable {qs : List Qubit} {i : Instruction α} {is : List (Instruction α)} {l l' l'' : Ledger α}

theorem SameOutside.refl (l : Ledger α) : SameOutside qs l l := ⟨fun _ _ => rfl, fun _ _ => rfl,
  fun _ _ => rfl⟩

theorem SameOutside.trans (h : SameOutside qs l l') (h' : SameOutside qs l' l'') :
    SameOutside qs l l'' where
  times q hq := (h'.times q hq).trans (h.times q hq)
  phases q hq := (h'.phases q hq).trans (h.phases q hq)
  biases c hc := (h'.biases c hc).trans (h.biases c hc)

/-- **An instruction changes nothing outside of its qubits.** -/
theorem sameOutside_apply (h : i.Within qs) (l : Ledger α) : SameOutside qs l (l.apply i) := by
  cases i with
  | addWaveform | expand => exact .refl l
  | setState update =>
    cases update with
    | time r value =>
      refine ⟨fun q hq => ?_, fun _ _ => rfl, fun _ _ => rfl⟩
      have hne : r ≠ q := fun heq => hq (heq ▸ h.subset List.mem_cons_self)
      simp only [apply, Std.ExtTreeMap.getElem?_insert, Std.LawfulEqOrd.compare_eq_iff_eq, if_neg hne]
    | phase r value =>
      refine ⟨fun _ _ => rfl, fun q hq => ?_, fun _ _ => rfl⟩
      have hne : r ≠ q := fun heq => hq (heq ▸ h.subset List.mem_cons_self)
      simp only [apply, Std.ExtTreeMap.getElem?_insert, Std.LawfulEqOrd.compare_eq_iff_eq, if_neg hne]
    | bias d value =>
      refine ⟨fun _ _ => rfl, fun _ _ => rfl, fun c hc => ?_⟩
      have hne : d ≠ c := fun heq => by
        obtain ⟨q, hq, hinvolves⟩ := Instruction.exists_involves h.subset (h.addressed rfl)
        cases (hc q hq).symm.trans (heq ▸ hinvolves)
      simp only [apply, Std.ExtTreeMap.getElem?_insert, Std.LawfulEqOrd.compare_eq_iff_eq, if_neg hne]
    | cbit task => exact ⟨fun _ _ => rfl, fun _ _ => rfl, fun _ _ => rfl⟩

/-- **Instructions change nothing outside of their qubits.** -/
theorem sameOutside_applyAll (h : ∀ i ∈ is, i.Within qs) (l : Ledger α) :
    SameOutside qs l (l.applyAll is) := by
  induction is generalizing l with
  | nil => exact .refl l
  | cons i is ih =>
    obtain ⟨hi, hrest⟩ := List.forall_mem_cons.mp h
    exact (sameOutside_apply hi l).trans (ih hrest (l.apply i))

/-- An instruction that does not write a bit keeps what is recorded under it. -/
theorem measures_apply {bit : UInt32} (h : ∀ task, i = .setCbit task → task.cbit ≠ bit)
    (l : Ledger α) : (l.apply i).measures[bit]? = l.measures[bit]? := by
  cases i with
  | addWaveform | expand => rfl
  | setState update =>
    cases update with
    | time | phase | bias => rfl
    | cbit task =>
      simp only [apply, Std.ExtTreeMap.getElem?_insert, Std.LawfulEqOrd.compare_eq_iff_eq,
        if_neg (h task rfl)]

/-- **What is recorded under a bit stays** until the bit is written. -/
theorem measures_applyAll {bit : UInt32} (h : ∀ task, .setCbit task ∈ is → task.cbit ≠ bit)
    (l : Ledger α) : (l.applyAll is).measures[bit]? = l.measures[bit]? := by
  induction is generalizing l with
  | nil => rfl
  | cons i is ih =>
    rw [applyAll_cons, ih (fun task hmem => h task (List.mem_cons_of_mem _ hmem))]
    exact measures_apply (fun task heq => h task (heq ▸ List.mem_cons_self)) l

end Ledger

end PulseControl
