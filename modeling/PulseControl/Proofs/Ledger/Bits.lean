import PulseControl.Proofs.Ledger.Frame

/-!
# The next classical bit

Measurements are recorded under bits, and the next free bit is one past the greatest that is used. This
is a bit of its own, above all others, as long as there is one: past the last bit of all there is none, and
the last bit is given again.

* `PulseControl.Instruction.bits` – the bits that some instructions write;
* `PulseControl.Ledger.mem_measures_applyAll` – the bits in use;
* `PulseControl.Ledger.lt_nextCbit_iff`, `PulseControl.Ledger.nextCbit_mem_iff` – the next bit is new
  exactly if the last bit is not in use;
* `PulseControl.Ledger.CountsUp` – instructions that take one next bit after the other.
-/

namespace PulseControl

variable {α : Type}

namespace Instruction

/-- **The bits that some instructions write**, in order. -/
def bits (is : List (Instruction α)) : List UInt32 :=
  is.filterMap fun
    | .setState (.cbit task) => some task.cbit
    | _ => none

variable {is js : List (Instruction α)}

theorem mem_bits {bit : UInt32} : bit ∈ bits is ↔ ∃ task, .setCbit task ∈ is ∧ task.cbit = bit := by
  rw [bits, List.mem_filterMap]
  constructor
  · rintro ⟨i, hi, hbit⟩
    split at hbit
    · next task =>
      cases hbit
      exact ⟨task, hi, rfl⟩
    · cases hbit
  · rintro ⟨task, hmem, rfl⟩
    exact ⟨_, hmem, rfl⟩

theorem bits_append (is js : List (Instruction α)) : bits (is ++ js) = bits is ++ bits js :=
  List.filterMap_append

theorem bits_eq_nil (h : ∀ task, .setCbit task ∉ is) : bits is = [] := by
  rw [List.eq_nil_iff_forall_not_mem]
  intro bit hbit
  obtain ⟨task, hmem, -⟩ := mem_bits.mp hbit
  exact h task hmem

end Instruction

namespace Ledger

variable {l : Ledger α} {bit : UInt32} {i : Instruction α} {is js : List (Instruction α)}

open Instruction (bits)

/-- **The bits in use** are those in use before and those written since. -/
theorem mem_measures_applyAll (l : Ledger α) (is : List (Instruction α)) :
    bit ∈ (l.applyAll is).measures ↔ bit ∈ l.measures ∨ bit ∈ bits is := by
  induction is generalizing l with
  | nil => simp [bits]
  | cons i is ih =>
    rw [applyAll_cons, ih, ← List.singleton_append, Instruction.bits_append, List.mem_append,
      ← or_assoc]
    refine or_congr_left ?_
    cases i with
    | addWaveform | expand => simp [apply, bits]
    | setState update =>
      cases update with
      | time | phase | bias => simp [apply, bits]
      | cbit task =>
        simp only [apply, Std.ExtTreeMap.mem_insert, Std.LawfulEqOrd.compare_eq_iff_eq, bits,
          List.filterMap_cons, List.filterMap_nil, List.mem_singleton, @eq_comm _ bit, or_comm]

/-- The last bit of all. -/
def lastBit : UInt32 := UInt32.ofNat (UInt32.size - 1)

theorem le_lastBit (bit : UInt32) : bit ≤ lastBit := by
  have hlt := bit.toNat_lt
  rw [UInt32.le_iff_toNat_le]
  change bit.toNat ≤ 4294967295
  omega

theorem toNat_succ (h : bit ≠ lastBit) : (bit + 1).toNat = bit.toNat + 1 := by
  have hne : bit.toNat ≠ 4294967295 := fun heq => h (UInt32.toNat_inj.mp heq)
  have hlt := bit.toNat_lt
  rw [UInt32.toNat_add]
  change (bit.toNat + 1) % 2 ^ 32 = bit.toNat + 1
  omega

theorem nextCbit_empty : (∅ : Ledger α).nextCbit = 0 := by
  have hnone : (∅ : Ledger α).measures.maxKey? = none := Std.ExtTreeMap.maxKey?_empty
  rw [nextCbit, hnone]

/-- The next bit after the greatest one in use. -/
theorem nextCbit_of_maxKey? {top : UInt32} (h : l.measures.maxKey? = some top) :
    l.nextCbit = if top = lastBit then lastBit else top + 1 := by
  have hnext : l.nextCbit = if top = lastBit then top else top + 1 := by
    rw [nextCbit, h]
    rfl
  rw [hnext]
  exact ite_congr rfl (fun htop => htop) fun _ => rfl

/-- **The next bit**: the first where none is in use, and else one past the greatest in use, if that is
not the last of all. -/
theorem nextCbit_spec (l : Ledger α) :
    (l.measures = ∅ ∧ l.nextCbit = 0) ∨
      ∃ top ∈ l.measures, (∀ bit ∈ l.measures, bit ≤ top) ∧
        l.nextCbit = if top = lastBit then lastBit else top + 1 := by
  cases htop : l.measures.maxKey? with
  | none =>
    refine Or.inl ⟨Std.ExtTreeMap.maxKey?_eq_none_iff.mp htop, ?_⟩
    rw [nextCbit, htop]
  | some top =>
    obtain ⟨hmem, hle⟩ := Std.ExtTreeMap.maxKey?_eq_some_iff_mem_and_forall.mp htop
    exact Or.inr ⟨top, hmem, fun bit hbit => Std.isLE_compare.mp (hle bit hbit),
      nextCbit_of_maxKey? htop⟩

/-- The last bit is given again and again. -/
theorem nextCbit_of_lastBit_mem (h : lastBit ∈ l.measures) : l.nextCbit = lastBit := by
  rcases l.nextCbit_spec with ⟨hempty, -⟩ | ⟨top, -, hle, hnext⟩
  · rw [hempty] at h
    exact absurd h Std.ExtTreeMap.not_mem_empty
  · have htop : top = lastBit := UInt32.le_antisymm (le_lastBit top) (hle _ h)
    rw [hnext, if_pos htop]

/-- As long as the last bit is not in use, the next bit is above all that are. -/
theorem lt_nextCbit (h : lastBit ∉ l.measures) (hbit : bit ∈ l.measures) : bit < l.nextCbit := by
  rcases l.nextCbit_spec with ⟨hempty, -⟩ | ⟨top, htop, hle, hnext⟩
  · rw [hempty] at hbit
    exact absurd hbit Std.ExtTreeMap.not_mem_empty
  · have hne : top ≠ lastBit := fun heq => h (heq ▸ htop)
    have hlebit := UInt32.le_iff_toNat_le.mp (hle bit hbit)
    rw [hnext, if_neg hne, UInt32.lt_iff_toNat_lt, toNat_succ hne]
    omega

/-- No bit in use is above the next one. -/
theorem le_nextCbit (hbit : bit ∈ l.measures) : bit ≤ l.nextCbit := by
  by_cases hlast : lastBit ∈ l.measures
  · rw [nextCbit_of_lastBit_mem hlast]
    exact le_lastBit bit
  · exact UInt32.le_of_lt (lt_nextCbit hlast hbit)

/-- **The next bit is above all bits in use exactly if the last bit is not in use.** -/
theorem lt_nextCbit_iff (l : Ledger α) :
    (∀ bit ∈ l.measures, bit < l.nextCbit) ↔ lastBit ∉ l.measures := by
  refine ⟨fun h hlast => ?_, fun h bit hbit => lt_nextCbit h hbit⟩
  have hlt := h lastBit hlast
  rw [nextCbit_of_lastBit_mem hlast] at hlt
  exact UInt32.lt_irrefl _ hlt

/-- **The next bit is in use exactly if the last bit is.** -/
theorem nextCbit_mem_iff (l : Ledger α) : l.nextCbit ∈ l.measures ↔ lastBit ∈ l.measures := by
  constructor
  · intro h
    refine Decidable.byContradiction fun hlast => ?_
    exact UInt32.lt_irrefl _ (lt_nextCbit hlast h)
  · intro h
    rwa [nextCbit_of_lastBit_mem h]

/-! ### Counting upwards -/

/-- Nothing that writes no bit changes which bit is next. -/
theorem nextCbit_applyAll_of_nil (h : bits is = []) (l : Ledger α) :
    (l.applyAll is).nextCbit = l.nextCbit := by
  have hsame : (l.applyAll is).measures = l.measures := by
    refine Std.ExtTreeMap.ext_getElem? fun bit => measures_applyAll (fun task hmem _ => ?_) l
    have hbit := Instruction.mem_bits.mpr ⟨task, hmem, rfl⟩
    rw [h] at hbit
    cases hbit
  rw [nextCbit, nextCbit, hsame]

/-- **The next bit after it has been taken** is one past it, up to the last. -/
theorem nextCbit_applyAll_of_singleton (h : bits is = [l.nextCbit]) :
    (l.applyAll is).nextCbit.toNat = min (l.nextCbit.toNat + 1) lastBit.toNat := by
  have htop : (l.applyAll is).measures.maxKey? = some l.nextCbit := by
    rw [Std.ExtTreeMap.maxKey?_eq_some_iff_mem_and_forall]
    refine ⟨(l.mem_measures_applyAll is).mpr (Or.inr (h ▸ List.mem_cons_self)), fun bit hbit => ?_⟩
    rw [Std.isLE_compare]
    rcases (l.mem_measures_applyAll is).mp hbit with hold | hnew
    · exact le_nextCbit hold
    · rw [h] at hnew
      rw [List.mem_singleton.mp hnew]
      exact UInt32.le_refl _
  rw [nextCbit_of_maxKey? htop]
  split
  · next hlast =>
    rw [hlast]
    omega
  · next hlast =>
    have hle := UInt32.le_iff_toNat_le.mp (le_lastBit (l.nextCbit + 1))
    rw [← toNat_succ hlast, Nat.min_eq_left hle]

/-- **Some instructions count upwards**: the bits that they write are the next one, the one after it and so
on, up to the last. -/
structure CountsUp (l : Ledger α) (is : List (Instruction α)) : Prop where
  bits_eq : bits is = (List.range (bits is).length).map fun n =>
    UInt32.ofNat (min (l.nextCbit.toNat + n) lastBit.toNat)
  nextCbit_eq : (l.applyAll is).nextCbit.toNat =
    min (l.nextCbit.toNat + (bits is).length) lastBit.toNat

theorem countsUp_of_nil (h : bits is = []) (l : Ledger α) : l.CountsUp is := by
  have hle := UInt32.le_iff_toNat_le.mp (le_lastBit l.nextCbit)
  refine ⟨by simp [h], ?_⟩
  rw [nextCbit_applyAll_of_nil h, h, List.length_nil, Nat.add_zero, Nat.min_eq_left hle]

theorem countsUp_of_singleton (h : bits is = [l.nextCbit]) : l.CountsUp is := by
  have hle := UInt32.le_iff_toNat_le.mp (le_lastBit l.nextCbit)
  refine ⟨?_, ?_⟩
  · rw [h]
    simp [Nat.min_eq_left hle]
  · rw [h]
    exact nextCbit_applyAll_of_singleton h

/-- **Instructions that count upwards one after the other** do so together. -/
theorem CountsUp.append (h : l.CountsUp is) (h' : (l.applyAll is).CountsUp js) :
    l.CountsUp (is ++ js) := by
  have hshift : ∀ n, min ((l.applyAll is).nextCbit.toNat + n) lastBit.toNat =
      min (l.nextCbit.toNat + ((bits is).length + n)) lastBit.toNat := by
    intro n
    rw [h.nextCbit_eq]
    omega
  constructor
  · rw [Instruction.bits_append, List.length_append, List.range_add, List.map_append, ← h.bits_eq,
      List.map_map]
    refine congrArg (bits is ++ ·) (h'.bits_eq.trans (List.map_congr_left fun n _ => ?_))
    rw [hshift]
    rfl
  · rw [applyAll_append, h'.nextCbit_eq, hshift, Instruction.bits_append, List.length_append]

end Ledger

end PulseControl
