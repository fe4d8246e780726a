import Mathlib
import PulseControl.Proofs.OrderedScalar

/-!
# Where a float stands

A float is compared by its sign, its exponent and its mantissa. Below the sign, the exponent stands above the
mantissa, and these bits read as one natural number grow with the size of the float: a mantissa has its
leading bit, which is not written, unless its exponent is the least one. So a float that is a number stands
at a whole number, which the sign turns round at 0, and the order of floats is that of the whole numbers.
The two zeros stand at one place, and every other number has a place of its own.

* `PulseControl.Float64.position` – where a float stands;
* `PulseControl.Float64.Stands.compare_eq` – numbers compare like their positions;
* `PulseControl.Float64.le_iff`, `PulseControl.Float64.lt_iff` – the order of floats;
* `PulseControl.Float64.eq_of_position_eq` – what stands at one place other than 0 is identical.
-/

namespace PulseControl

namespace Float64

open Float.Model
open UnpackedFloat (Sign unpackExponent unpackMantissa unpackSign)

/-! ### The positions of numbers -/

/-- The mantissa and the exponent of a number that is neither zero nor infinite. The mantissa has its leading
bit unless the exponent is the least one. -/
structure Canonical (mantissa : ℕ) (exponent : ℤ) : Prop where
  pos : 0 < mantissa
  lt : mantissa < 2 ^ 53
  le_exponent : -1074 ≤ exponent
  exponent_le : exponent ≤ 971
  leading : mantissa < 2 ^ 52 → exponent = -1074

/-- The size of a number as its bits below the sign. -/
def magnitude (mantissa : ℕ) (exponent : ℤ) : ℤ := (exponent + 1074) * 2 ^ 52 + mantissa

namespace Canonical

variable {mantissa mantissa' : ℕ} {exponent exponent' : ℤ}

theorem magnitude_pos (h : Canonical mantissa exponent) : 0 < magnitude mantissa exponent := by
  have hpos := h.pos
  have hleast := h.le_exponent
  rw [magnitude]
  omega

/-- Infinity is greater than every other number. -/
theorem magnitude_lt (h : Canonical mantissa exponent) :
    magnitude mantissa exponent < 2047 * 2 ^ 52 := by
  have hlt := h.lt
  have hgreatest := h.exponent_le
  rw [magnitude]
  omega

/-- A greater exponent makes up for every mantissa. -/
theorem magnitude_lt_magnitude (h : Canonical mantissa exponent) (h' : Canonical mantissa' exponent')
    (hexponent : exponent < exponent') : magnitude mantissa exponent < magnitude mantissa' exponent' := by
  have hlt := h.lt
  have hleast := h.le_exponent
  have hleading : ¬mantissa' < 2 ^ 52 := fun hnone => by
    have hexponent' := h'.leading hnone
    omega
  rw [magnitude, magnitude]
  omega

/-- **Sizes compare as the exponents do, and then the mantissas.** -/
theorem compare_magnitude (h : Canonical mantissa exponent) (h' : Canonical mantissa' exponent') :
    (compare exponent exponent').then (compare mantissa mantissa') =
      compare (magnitude mantissa exponent) (magnitude mantissa' exponent') := by
  rcases lt_trichotomy exponent exponent' with hlt | rfl | hgt
  · rw [compare_lt_iff_lt.mpr hlt, compare_lt_iff_lt.mpr (h.magnitude_lt_magnitude h' hlt)]
    rfl
  · rw [compare_eq_iff_eq.mpr rfl, Ordering.eq_then]
    rcases lt_trichotomy mantissa mantissa' with hlt | rfl | hgt
    · rw [compare_lt_iff_lt.mpr hlt, compare_lt_iff_lt.mpr (by rw [magnitude, magnitude]; omega)]
    · rw [compare_eq_iff_eq.mpr rfl, compare_eq_iff_eq.mpr rfl]
    · rw [compare_gt_iff_gt.mpr hgt, compare_gt_iff_gt.mpr (by rw [magnitude, magnitude]; omega)]
  · rw [compare_gt_iff_gt.mpr hgt, compare_gt_iff_gt.mpr (h'.magnitude_lt_magnitude h hgt)]
    rfl

end Canonical

/-- **Where a number stands.** -/
inductive Stands : UnpackedFloat → ℤ → Prop where
  /-- Infinity stands where an exponent of ones without a mantissa does. -/
  | infinity (s : Sign) : Stands (.infinity s) (s.apply (2047 * 2 ^ 52))
  | zero (s : Sign) : Stands (.zero s) 0
  | finite (s : Sign) {mantissa : ℕ} {exponent : ℤ} (h : Canonical mantissa exponent) :
    Stands (.finite s mantissa exponent h.pos) (s.apply (magnitude mantissa exponent))

theorem some_lt_eq {i j : ℤ} : some Ordering.lt = some (compare i j) ↔ i < j := by
  rw [Option.some_inj, eq_comm, compare_lt_iff_lt]

theorem some_gt_eq {i j : ℤ} : some Ordering.gt = some (compare i j) ↔ j < i := by
  rw [Option.some_inj, eq_comm, compare_gt_iff_gt]

theorem compare_neg_neg (i j : ℤ) : compare (-i) (-j) = (compare i j).swap := by
  rcases lt_trichotomy i j with hlt | rfl | hgt
  · rw [compare_lt_iff_lt.mpr hlt, compare_gt_iff_gt.mpr (neg_lt_neg hlt)]
    rfl
  · rw [compare_eq_iff_eq.mpr rfl, compare_eq_iff_eq.mpr rfl]
    rfl
  · rw [compare_gt_iff_gt.mpr hgt, compare_lt_iff_lt.mpr (neg_lt_neg hgt)]
    rfl

/-- **Numbers compare like their positions.** -/
theorem Stands.compare_eq {u v : UnpackedFloat} {i j : ℤ} (hu : Stands u i) (hv : Stands v j) :
    u.compare v = some (compare i j) := by
  cases hu with
  | infinity s =>
    cases hv with
    | infinity t => cases s <;> cases t <;> rfl
    | zero => cases s <;> rfl
    | finite t h =>
      have hpos := h.magnitude_pos
      have hlt := h.magnitude_lt
      cases s <;> cases t <;>
        simp only [UnpackedFloat.compare, Sign.apply, some_lt_eq, some_gt_eq] <;> omega
  | zero =>
    cases hv with
    | infinity t => cases t <;> rfl
    | zero => rfl
    | finite t h =>
      have hpos := h.magnitude_pos
      cases t <;> simp only [UnpackedFloat.compare, Sign.apply, some_lt_eq, some_gt_eq] <;> omega
  | finite s h =>
    have hpos := h.magnitude_pos
    have hlt := h.magnitude_lt
    cases hv with
    | infinity t =>
      cases s <;> cases t <;>
        simp only [UnpackedFloat.compare, Sign.apply, some_lt_eq, some_gt_eq] <;> omega
    | zero =>
      cases s <;> simp only [UnpackedFloat.compare, Sign.apply, some_lt_eq, some_gt_eq] <;> omega
    | finite t h' =>
      have hpos' := h'.magnitude_pos
      cases s <;> cases t
      · rw [Sign.apply, Sign.apply, compare_neg_neg, ← h.compare_magnitude h']
        rfl
      · exact some_lt_eq.mpr (by simp only [Sign.apply]; omega)
      · exact some_gt_eq.mpr (by simp only [Sign.apply]; omega)
      · exact congrArg some (h.compare_magnitude h')

/-! ### The bits of a float -/

section Bits

variable (b : BitVec Format.binary64.numBits)

/-- Below the sign stand the exponent and the mantissa. -/
theorem toNat_mod_eq :
    b.toNat % 2 ^ 63 = (unpackExponent b).toNat * 2 ^ 52 + (unpackMantissa b).toNat := by
  have hexponent : (unpackExponent b).toNat = b.toNat / 2 ^ 52 % 2 ^ 11 := by
    rw [unpackExponent, BitVec.toNat_cast, BitVec.extractLsb_toNat, Nat.shiftRight_eq_div_pow]
    rfl
  have hmantissa : (unpackMantissa b).toNat = b.toNat % 2 ^ 52 := by
    rw [unpackMantissa, BitVec.toNat_cast, BitVec.extractLsb_toNat, Nat.shiftRight_zero]
    rfl
  omega

/-- The sign is the topmost bit. -/
theorem apply_unpackSign (i : ℤ) :
    (Sign.ofBitVec (unpackSign b)).apply i = if b.toNat < 2 ^ 63 then i else -i := by
  have hlt : b.toNat < 2 ^ 64 := b.isLt
  have hsign : (unpackSign b).toNat = b.toNat / 2 ^ 63 % 2 := by
    rw [unpackSign, BitVec.toNat_cast, BitVec.extractLsb_toNat, Nat.shiftRight_eq_div_pow]
    rfl
  have hzero : unpackSign b = 0#1 ↔ b.toNat < 2 ^ 63 := by
    rw [← BitVec.toNat_inj, hsign, BitVec.toNat_ofNat]
    omega
  simp only [Sign.ofBitVec, hzero]
  split <;> rfl

/-- The leading bit of a mantissa is not written. -/
theorem toNat_one_append (m : BitVec 52) : (1#1 ++ m).toNat = 2 ^ 52 + m.toNat := by
  rw [BitVec.toNat_append, ← Nat.shiftLeft_add_eq_or_of_lt m.isLt]
  rfl

/-- **The bits of a number stand where they say.** -/
theorem stands_unpack_bits : (UnpackedFloat.unpack Format.binary64 b).isNaN = false →
    Stands (UnpackedFloat.unpack Format.binary64 b)
      ((Sign.ofBitVec (unpackSign b)).apply (b.toNat % 2 ^ 63 : ℕ)) := by
  rw [toNat_mod_eq]
  have hexponent : (unpackExponent b).toNat < 2 ^ 11 := (unpackExponent b).isLt
  have hmantissa : (unpackMantissa b).toNat < 2 ^ 52 := (unpackMantissa b).isLt
  fun_cases UnpackedFloat.unpack Format.binary64 b with
  | case1 m e _ s hones hnone =>
    intro _
    have hones' : (unpackExponent b).toNat = 2047 := congrArg BitVec.toNat hones
    have hnone' : (unpackMantissa b).toNat = 0 := congrArg BitVec.toNat hnone
    rw [hones', hnone']
    exact .infinity _
  | case2 =>
    intro h
    cases h
  | case3 m e _ s _ hzero hnone =>
    intro _
    have hzero' : (unpackExponent b).toNat = 0 := congrArg BitVec.toNat hzero
    have hnone' : (unpackMantissa b).toNat = 0 := congrArg BitVec.toNat hnone
    rw [hzero', hnone']
    cases Sign.ofBitVec (unpackSign b) <;> exact .zero _
  | case4 m e exponent _ s _ hzero hsome =>
    intro _
    have hzero' : (unpackExponent b).toNat = 0 := congrArg BitVec.toNat hzero
    have hleast : exponent + 1 = ((unpackExponent b).toNat : ℤ) - 1075 + 1 := rfl
    have hpos : 0 < (unpackMantissa b).toNat :=
      Nat.pos_of_ne_zero fun h => hsome (BitVec.eq_of_toNat_eq h)
    have hplace : (((unpackExponent b).toNat * 2 ^ 52 + (unpackMantissa b).toNat : ℕ) : ℤ) =
        magnitude (unpackMantissa b).toNat (exponent + 1) := by
      rw [magnitude]
      omega
    rw [hplace]
    exact .finite s ⟨hpos, by omega, by omega, by omega, by omega⟩
  | case5 m e exponent _ s hones hzero =>
    intro _
    have hbelow : (unpackExponent b).toNat ≠ 2047 := fun h => hones (BitVec.eq_of_toNat_eq h)
    have hpos : (unpackExponent b).toNat ≠ 0 := fun h => hzero (BitVec.eq_of_toNat_eq h)
    have hvalue : exponent = ((unpackExponent b).toNat : ℤ) - 1075 := rfl
    have hleading : (1#1 ++ m).toNat = 2 ^ 52 + (unpackMantissa b).toNat := toNat_one_append _
    have hplace : (((unpackExponent b).toNat * 2 ^ 52 + (unpackMantissa b).toNat : ℕ) : ℤ) =
        magnitude (1#1 ++ m).toNat exponent := by
      rw [magnitude, hleading]
      omega
    rw [hplace]
    exact .finite s ⟨by omega, by omega, by omega, by omega, by omega⟩

end Bits

/-! ### Floats -/

/-- **Where a float stands.** -/
def position (x : Float) : ℤ :=
  if x.toBits.toNat < 2 ^ 63 then (x.toBits.toNat % 2 ^ 63 : ℕ) else -(x.toBits.toNat % 2 ^ 63 : ℕ)

variable {x y : Float}

theorem stands (h : x.isNaN = false) : Stands x.toModel.unpack (position x) := by
  have hstands := stands_unpack_bits x.toModel.toBits.toBitVec h
  rwa [apply_unpackSign] at hstands

/-- What is no number is not compared. -/
theorem compare_eq_none (h : ¬(x.isNaN = false ∧ y.isNaN = false)) :
    x.toModel.unpack.compare y.toModel.unpack = none := by
  have hnan : ∀ z : Float, z.isNaN ≠ false → z.toModel.unpack = .notANumber := fun z hz =>
    UnpackedFloat.isNaN_iff.mp ((Bool.not_eq_false _).mp hz)
  rcases not_and_or.mp h with h | h
  · rw [hnan x h]
    rfl
  · rw [hnan y h]
    cases x.toModel.unpack with
    | infinity s => cases s <;> rfl
    | notANumber | zero => rfl
    | finite s => cases s <;> rfl

/-- **Floats are compared by their positions**, provided that they are numbers. -/
theorem compare_eq_some {o : Ordering} : x.toModel.unpack.compare y.toModel.unpack = some o ↔
    (x.isNaN = false ∧ y.isNaN = false) ∧ compare (position x) (position y) = o := by
  by_cases h : x.isNaN = false ∧ y.isNaN = false
  · rw [(stands h.1).compare_eq (stands h.2), Option.some_inj, and_iff_right h]
  · rw [compare_eq_none h]
    exact iff_of_false (Option.some_ne_none o).symm fun hsome => h hsome.1

theorem lt_iff : x < y ↔ (x.isNaN = false ∧ y.isNaN = false) ∧ position x < position y := by
  have hcompare : x < y ↔ x.toModel.unpack.compare y.toModel.unpack = some .lt :=
    decide_eq_true_iff.trans beq_iff_eq
  rw [hcompare, compare_eq_some, compare_lt_iff_lt]

theorem le_iff : x ≤ y ↔ (x.isNaN = false ∧ y.isNaN = false) ∧ position x ≤ position y := by
  have hcompare : x ≤ y ↔ (x.toModel.unpack.compare y.toModel.unpack).any (·.isLE) = true :=
    decide_eq_true_iff
  simp only [hcompare, Option.any_eq_true, compare_eq_some, and_assoc, exists_and_left,
    exists_eq_left', Int.isLE_compare]

theorem beq_iff : (x == y) = true ↔
    (x.isNaN = false ∧ y.isNaN = false) ∧ position x = position y := by
  have hcompare : (x == y) = true ↔ x.toModel.unpack.compare y.toModel.unpack = some .eq :=
    Iff.trans Iff.rfl (beq_iff_eq (a := x.toModel.unpack.compare y.toModel.unpack))
  rw [hcompare, compare_eq_some, compare_eq_iff_eq]

/-- **What stands at one place other than 0 is identical.** -/
theorem eq_of_position_eq (h : position x = position y) (hne : position x ≠ 0) : x = y := by
  have hbits : x.toBits.toNat = y.toBits.toNat := by
    have hx : x.toBits.toNat < 2 ^ 64 := x.toBits.toNat_lt
    have hy : y.toBits.toNat < 2 ^ 64 := y.toBits.toNat_lt
    rw [position] at h hne
    rw [position] at h
    split at h <;> split at h <;> omega
  exact Float.toBits_inj.mp (UInt64.toNat_inj.mp hbits)

end Float64

open Float64 in
instance : OrderedScalar Float where
  defined_zero := show Float.isNaN 0 = false by decide +kernel
  le_total {a b} ha hb := by
    rw [le_iff, le_iff]
    exact (le_total (position a) (position b)).imp (⟨⟨ha, hb⟩, ·⟩) (⟨⟨hb, ha⟩, ·⟩)
  le_trans {a b c} hab hbc := by
    rw [le_iff] at hab hbc ⊢
    exact ⟨⟨hab.1.1, hbc.1.2⟩, hab.2.trans hbc.2⟩
  lt_iff {a b} ha hb := by
    rw [lt_iff, le_iff, and_iff_right ⟨ha, hb⟩, and_iff_right ⟨hb, ha⟩, not_le]
  beq_iff {a b} := by
    rw [le_iff, le_iff]
    refine beq_iff.trans ⟨?_, ?_⟩
    · rintro ⟨⟨ha, hb⟩, h⟩
      exact ⟨⟨⟨ha, hb⟩, h.le⟩, ⟨hb, ha⟩, h.ge⟩
    · rintro ⟨⟨hdefined, hle⟩, -, hge⟩
      exact ⟨hdefined, le_antisymm hle hge⟩
  eq_of_pos {a b} hpos hab hba := by
    have hzero : position 0 = 0 := by decide +kernel
    have hlt : position 0 < position a := (lt_iff.mp hpos).2
    rw [le_iff] at hab hba
    exact eq_of_position_eq (le_antisymm hab.2 hba.2) (hzero ▸ hlt).ne'
  max_eq {a b} ha := by
    have hnan : a.isNaN = false := ha
    change Float64.max a b = _
    rw [Float64.max, hnan]
    rfl

end PulseControl
