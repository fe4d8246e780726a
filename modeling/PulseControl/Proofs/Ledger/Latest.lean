import PulseControl.Proofs.OrderedScalar
import PulseControl.Ledger

/-!
# The latest cursor

The latest of some cursors is looked for from 0 on, and a cursor takes its place only if it is greater.
So it is 0 itself or a positive cursor, and it is one scalar for every order of the qubits: where the
latest cursors of two ledgers compare equal, they are identical.

* `PulseControl.Ledger.CursorsDefined` – every cursor is a number;
* `PulseControl.Ledger.IsLatest` – the greatest of 0 and some cursors;
* `PulseControl.Ledger.CursorsDefined.maxTime_le_iff` – the latest cursor as a least bound;
* `PulseControl.Ledger.CursorsDefined.maxTime_cases` – it is 0 or a positive cursor;
* `PulseControl.Ledger.maxTime_antisymm` – latest cursors that compare equal are identical;
* `PulseControl.Ledger.times_applyAll_setTime` – several cursors set to one time.
-/

namespace PulseControl

namespace Ledger

variable {α : Type}

/-! ### Setting cursors -/

section Setting

variable {qs : List Qubit} {value : α}

/-- Setting cursors changes nothing else. -/
theorem rest_applyAll_setTime (l : Ledger α) (qs : List Qubit) (value : α) :
    (l.applyAll (qs.map fun q => .setTime q value)).phases = l.phases ∧
      (l.applyAll (qs.map fun q => .setTime q value)).biases = l.biases ∧
      (l.applyAll (qs.map fun q => .setTime q value)).measures = l.measures := by
  induction qs generalizing l with
  | nil => exact ⟨rfl, rfl, rfl⟩
  | cons q qs ih => exact ih (l.apply (.setTime q value))

/-- **Several cursors set to one time.** -/
theorem times_applyAll_setTime (l : Ledger α) (qs : List Qubit) (value : α) (r : Qubit) :
    (l.applyAll (qs.map fun q => .setTime q value)).times[r]? =
      if r ∈ qs then some value else l.times[r]? := by
  induction qs generalizing l with
  | nil => rfl
  | cons q qs ih =>
    have hfirst : (l.apply (.setTime q value)).times[r]? =
        if q = r then some value else l.times[r]? := by
      simp only [apply, Instruction.setTime, Std.ExtTreeMap.getElem?_insert,
        Std.LawfulEqOrd.compare_eq_iff_eq]
    rw [List.map_cons, applyAll_cons, ih, hfirst]
    by_cases hrest : r ∈ qs
    · rw [if_pos hrest, if_pos (List.mem_cons_of_mem _ hrest)]
    · rw [if_neg hrest]
      by_cases hq : q = r
      · rw [if_pos hq, if_pos (hq ▸ List.mem_cons_self)]
      · have hnot : r ∉ q :: qs := fun hmem =>
          (List.mem_cons.mp hmem).elim (fun heq => hq heq.symm) hrest
        rw [if_neg hq, if_neg hnot]

end Setting

/-- Ledgers with the same cursors and the same of everything else are one ledger. -/
theorem eq_of_times {l l' : Ledger α} (htimes : ∀ q : Qubit, l.times[q]? = l'.times[q]?)
    (hphases : l.phases = l'.phases) (hbiases : l.biases = l'.biases)
    (hmeasures : l.measures = l'.measures) : l = l' := by
  obtain ⟨times, phases, biases, measures⟩ := l
  obtain rfl : times = l'.times := Std.ExtTreeMap.ext_getElem? htimes
  obtain rfl : phases = l'.phases := hphases
  obtain rfl : biases = l'.biases := hbiases
  obtain rfl : measures = l'.measures := hmeasures
  rfl

variable [Scalar α]

theorem time_apply_setTime (l : Ledger α) (q r : Qubit) (value : α) :
    (l.apply (.setTime q value)).time r = if q = r then value else l.time r := by
  simp only [time, apply, Instruction.setTime, Std.ExtTreeMap.getElem?_insert,
    Std.LawfulEqOrd.compare_eq_iff_eq]
  split <;> rfl

/-- **Every cursor is a number.** -/
def CursorsDefined (l : Ledger α) : Prop := ∀ q, Scalar.Defined (l.time q)

/-- **The greatest of 0 and some cursors.** -/
structure IsLatest (l : Ledger α) (qs : List Qubit) (latest : α) : Prop where
  nonneg : 0 ≤ latest
  time_le : ∀ q ∈ qs, l.time q ≤ latest
  attained : latest = 0 ∨ ∃ q ∈ qs, latest = l.time q

variable [OrderedScalar α] {l l' : Ledger α} {qs rs : List Qubit} {q : Qubit}

namespace CursorsDefined

theorem maxTime (h : l.CursorsDefined) (qs : List Qubit) : Scalar.Defined (l.maxTime qs) :=
  Scalar.foldl_max_defined OrderedScalar.defined_zero fun q _ => h q

/-- **The latest cursor** is at most what neither 0 nor any of the cursors exceeds. -/
theorem maxTime_le_iff (h : l.CursorsDefined) {bound : α} :
    l.maxTime qs ≤ bound ↔ 0 ≤ bound ∧ ∀ q ∈ qs, l.time q ≤ bound :=
  Scalar.foldl_max_le OrderedScalar.defined_zero fun q _ => h q

theorem maxTime_nonneg (h : l.CursorsDefined) (qs : List Qubit) : 0 ≤ l.maxTime qs :=
  (h.maxTime_le_iff.mp (h.maxTime qs).le_refl).1

/-- No cursor among some qubits is later than the latest. -/
theorem time_le_maxTime (h : l.CursorsDefined) (hq : q ∈ qs) : l.time q ≤ l.maxTime qs :=
  (h.maxTime_le_iff.mp (h.maxTime qs).le_refl).2 q hq

/-- The latest cursor of more qubits is no earlier. -/
theorem maxTime_mono (h : l.CursorsDefined) (hsub : qs ⊆ rs) : l.maxTime qs ≤ l.maxTime rs :=
  h.maxTime_le_iff.mpr ⟨h.maxTime_nonneg rs, fun _ hq => h.time_le_maxTime (hsub hq)⟩

/-- **The latest cursor** is 0 or a positive cursor. -/
theorem maxTime_cases (h : l.CursorsDefined) (qs : List Qubit) :
    l.maxTime qs = 0 ∨ 0 < l.maxTime qs ∧ ∃ q ∈ qs, l.maxTime qs = l.time q :=
  Scalar.foldl_max_cases OrderedScalar.defined_zero fun q _ => h q

theorem isLatest_maxTime (h : l.CursorsDefined) (qs : List Qubit) :
    l.IsLatest qs (l.maxTime qs) where
  nonneg := h.maxTime_nonneg qs
  time_le _ hq := h.time_le_maxTime hq
  attained := (h.maxTime_cases qs).imp_right And.right

end CursorsDefined

/-- **Latest cursors that compare equal are identical**: both are 0, or both are the same positive
number. -/
theorem maxTime_antisymm (h : l.CursorsDefined) (h' : l'.CursorsDefined)
    (hle : l.maxTime qs ≤ l'.maxTime rs) (hge : l'.maxTime rs ≤ l.maxTime qs) :
    l.maxTime qs = l'.maxTime rs := by
  rcases h.maxTime_cases qs with hzero | ⟨hpos, -⟩
  · rcases h'.maxTime_cases rs with hzero' | ⟨hpos', -⟩
    · rw [hzero, hzero']
    · have hnot := (OrderedScalar.lt_iff OrderedScalar.defined_zero (h'.maxTime rs)).mp hpos'
      exact absurd (hzero ▸ hge) hnot
  · exact OrderedScalar.eq_of_pos hpos hle hge

end Ledger

end PulseControl
