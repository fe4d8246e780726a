import PulseControl.Proofs.Ledger.Frame
import PulseControl.Proofs.Schedule.Records

/-!
# Instructions on different qubits commute

Two instructions that concern different qubits, and do not write the same classical bit, leave the same
ledger and the same pulses in either order. An instruction that is no marker concerns some qubit, so two
such instructions address different channels, whether they play on them or set their bias. The same holds
of lists of instructions each two of which are of that kind.

* `PulseControl.Instruction.Apart` – instructions on different qubits and bits;
* `PulseControl.Ledger.apply_comm`, `PulseControl.Buffers.play_comm` – two instructions;
* `PulseControl.Schedule.applyAll_comm` – two lists of instructions.
-/

namespace PulseControl

variable {α : Type}

/-- **Two instructions that have nothing in common**: they concern different qubits, each of them some
qubit unless it is a marker, and write different bits. -/
structure Instruction.Apart (i j : Instruction α) : Prop where
  disjoint : ∀ q ∈ i.qubits, q ∉ j.qubits
  addressed : i.isExpand = false → i.qubits ≠ []
  bits : ∀ t u, i = .setCbit t → j = .setCbit u → t.cbit ≠ u.cbit

namespace Instruction.Apart

variable {i j : Instruction α}

theorem of_within {qs rs : List Qubit} (hi : i.Within qs) (hj : j.Within rs)
    (hdisjoint : ∀ q ∈ qs, q ∉ rs)
    (hbits : ∀ t u, i = .setCbit t → j = .setCbit u → t.cbit ≠ u.cbit) : i.Apart j :=
  ⟨fun _ hqi hqj => hdisjoint _ (hi.subset hqi) (hj.subset hqj), hi.addressed, hbits⟩

/-- Instructions that have nothing in common are not on the same qubits. -/
theorem qubits_ne (h : i.Apart j) (hplain : i.isExpand = false) : i.qubits ≠ j.qubits := by
  intro heq
  obtain ⟨q, hq⟩ := List.exists_mem_of_ne_nil _ (h.addressed hplain)
  exact h.disjoint q hq (heq ▸ hq)

end Instruction.Apart

/-- Entries under different keys can be made in either order. -/
theorem insert_comm {κ ν : Type} [Ord κ] [Std.TransOrd κ] [Std.LawfulEqOrd κ]
    (m : Std.ExtTreeMap κ ν) {k k' : κ} (h : k ≠ k') (v v' : ν) :
    (m.insert k v).insert k' v' = (m.insert k' v').insert k v := by
  refine Std.ExtTreeMap.ext_getElem? fun x => ?_
  simp only [Std.ExtTreeMap.getElem?_insert]
  split
  · next hk' =>
    rw [if_neg fun hk => h ((Std.LawfulEqOrd.eq_of_compare hk).trans
      (Std.LawfulEqOrd.eq_of_compare hk').symm)]
  · rfl

/-- What commutes with each of some steps commutes with all of them in turn. -/
theorem foldl_past {σ τ : Type} {f : σ → τ → σ} {g : σ → σ} {ys : List τ}
    (h : ∀ y ∈ ys, ∀ s, f (g s) y = g (f s y)) (s : σ) : ys.foldl f (g s) = g (ys.foldl f s) := by
  induction ys generalizing s with
  | nil => rfl
  | cons y ys ih =>
    obtain ⟨hy, hrest⟩ := List.forall_mem_cons.mp h
    rw [List.foldl_cons, List.foldl_cons, hy, ih hrest]

/-- What can be done in either order one by one can be done so in lists. -/
theorem foldl_foldl_comm {σ τ : Type} {f : σ → τ → σ} {xs ys : List τ}
    (h : ∀ x ∈ xs, ∀ y ∈ ys, ∀ s, f (f s x) y = f (f s y) x) (s : σ) :
    ys.foldl f (xs.foldl f s) = xs.foldl f (ys.foldl f s) := by
  induction xs generalizing s with
  | nil => rfl
  | cons x xs ih =>
    obtain ⟨hx, hrest⟩ := List.forall_mem_cons.mp h
    -- the first step passes the whole of the other list before the rest does
    rw [List.foldl_cons, List.foldl_cons, ih hrest, foldl_past (g := (f · x)) hx]

/-- **Two instructions that have nothing in common leave the same ledger in either order.** -/
theorem Ledger.apply_comm {i j : Instruction α} (h : i.Apart j) (l : Ledger α) :
    (l.apply i).apply j = (l.apply j).apply i := by
  cases i with
  | addWaveform | expand => rfl
  | setState u =>
    cases j with
    | addWaveform | expand => rfl
    | setState u' =>
      have hne := h.qubits_ne rfl
      cases u with
      | time q value =>
        cases u' with
        | time r value' =>
          have hqr : q ≠ r := fun heq => hne (heq ▸ rfl)
          exact congrArg (fun times => { l with times }) (insert_comm l.times hqr value value')
        | phase | bias | cbit => rfl
      | phase q value =>
        cases u' with
        | phase r value' =>
          have hqr : q ≠ r := fun heq => hne (heq ▸ rfl)
          exact congrArg (fun phases => { l with phases }) (insert_comm l.phases hqr value value')
        | time | bias | cbit => rfl
      | bias c value =>
        cases u' with
        | bias d value' =>
          have hcd : c ≠ d := fun heq => hne (heq ▸ rfl)
          exact congrArg (fun biases => { l with biases }) (insert_comm l.biases hcd value value')
        | time | phase | cbit => rfl
      | cbit task =>
        cases u' with
        | cbit task' =>
          have hbits : task.cbit ≠ task'.cbit := h.bits task task' rfl rfl
          exact congrArg (fun measures => { l with measures })
            (insert_comm l.measures hbits task task')
        | time | phase | bias => rfl

variable [Scalar α]

/-- The buffers after an instruction. -/
def Buffers.play (b : Buffers α) : Instruction α → Buffers α
  | .addWaveform c w => b.add c w
  | .setState _ | .expand _ => b

/-- **Two instructions that have nothing in common play the same in either order.** -/
theorem Buffers.play_comm {i j : Instruction α} (h : i.Apart j) (b : Buffers α) :
    (b.play i).play j = (b.play j).play i := by
  cases i with
  | setState | expand => rfl
  | addWaveform c w =>
    cases j with
    | setState | expand => rfl
    | addWaveform d w' =>
      have hcd : c ≠ d := fun heq => h.qubits_ne rfl (heq ▸ rfl)
      simp only [play, add, Std.ExtTreeMap.getElem?_insert, Std.LawfulEqOrd.compare_eq_iff_eq,
        if_neg hcd, if_neg (Ne.symm hcd)]
      exact insert_comm b hcd _ _

namespace Schedule

theorem buffers_applyAll (s : Schedule α) (is : List (Instruction α)) :
    (s.applyAll is).buffers = is.foldl Buffers.play s.buffers := by
  induction is generalizing s with
  | nil => rfl
  | cons i is ih =>
    refine (ih (s.apply i)).trans ?_
    cases i <;> rfl

/-- **Instructions that have nothing in common leave the same ledger and play the same in either
order.** -/
theorem applyAll_comm {is js : List (Instruction α)} (h : ∀ i ∈ is, ∀ j ∈ js, i.Apart j)
    (s : Schedule α) :
    ((s.applyAll is).applyAll js).ledger = ((s.applyAll js).applyAll is).ledger ∧
      ((s.applyAll is).applyAll js).buffers = ((s.applyAll js).applyAll is).buffers := by
  simp only [ledger_applyAll, buffers_applyAll]
  exact ⟨foldl_foldl_comm (fun i hi j hj => Ledger.apply_comm (h i hi j hj)) s.ledger,
    foldl_foldl_comm (fun i hi j hj => Buffers.play_comm (h i hi j hj)) s.buffers⟩

end Schedule

end PulseControl
