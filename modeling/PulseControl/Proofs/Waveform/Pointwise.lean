import Mathlib.Algebra.BigOperators.Group.List.Basic
import Mathlib.Tactic.Linarith
import Mathlib.Tactic.Ring
import PulseControl.Proofs.ExactScalar
import PulseControl.Waveform.Mixing

/-!
# Waveforms as functions of time

The operators on waveforms fold trivial cases away, and what they give is an expression that looks unlike
the operands. In exact arithmetic nothing of that can be seen from outside: at every time the sum of two
waveforms has the sum of their values, and so on, for all expressions whatever. The same is true of the
derivatives, because the derivative of an expression is made by the same operators.

* `PulseControl.Waveform.sample_add` and the like – the values of what the operators give, all together
  in `PulseControl.Waveform.operators_are_pointwise`;
* `PulseControl.Waveform.sample_derivative_add` and the like – the values of its derivative.
-/

namespace PulseControl

variable {α : Type} [ExactScalar α]

namespace Waveform

theorem beq_iff (a b : α) : (a == b) = true ↔ a = b := ExactScalar.beq_eq_true a b

/-! ### Values -/

theorem sample_zero (t : α) : (zero : Waveform α).sample t = 0 := by rw [sample]

/-- A sum of terms has the sum of their values. -/
theorem sample_terms (ws : List (Waveform α)) (t : α) :
    (sum ws).sample t = (ws.map fun w => w.sample t).sum := by
  rw [sample_sum, List.sum_eq_foldl, List.foldl_map]

/-- In exact arithmetic a left factor that is 0 makes no difference. -/
theorem sample_product (v w : Waveform α) (t : α) :
    (product v w).sample t = v.sample t * w.sample t := by
  rw [sample]
  split
  · next h => rw [(beq_iff _ _).mp h, zero_mul]
  · rfl

theorem sample_constant (c t : α) : (constant c).sample t = c := by
  rw [constant]
  split
  · next h => rw [(beq_iff _ _).mp h, sample_zero]
  · rw [sample]

theorem sample_scale (w : Waveform α) (k t : α) : (w.scale k).sample t = k * w.sample t := by
  rw [scale.eq_def]
  split
  · next h => rw [(beq_iff _ _).mp h, sample_zero, zero_mul]
  · split
    · next h => rw [(beq_iff _ _).mp h, one_mul]
    · split
      · rw [sample_zero, mul_zero]
      · rw [sample_constant, sample, mul_comm]
      · next k' inner =>
        rw [sample, ← mul_assoc]
        split
        · next h => rw [(beq_iff _ _).mp h, one_mul]
        · rw [sample]
      · rw [sample]

theorem sample_factor (k : α) (w : Waveform α) (t : α) : (k * w).sample t = k * w.sample t :=
  sample_scale w k t

theorem sample_delay (w : Waveform α) (dt t : α) : (w >>> dt).sample t = w.sample (t - dt) := by
  change (w.delay dt).sample t = _
  rw [delay.eq_def]
  split
  · next h => rw [(beq_iff _ _).mp h, sub_zero]
  · split
    · rw [sample_zero, sample_zero]
    · rw [sample, sample]
    · next inner dt' =>
      have hshift : t - dt - dt' = t - (dt' + dt) := by ring
      rw [sample, hshift]
      split
      · next h => rw [(beq_iff _ _).mp h, sub_zero]
      · rw [sample]
    · rw [sample]

theorem sample_add (v w : Waveform α) (t : α) : (v + w).sample t = v.sample t + w.sample t := by
  change (v.add w).sample t = _
  rw [add.eq_def]
  split
  · rw [sample_zero, zero_add]
  · rw [sample_zero, add_zero]
  · rw [sample_constant, sample, sample]
  all_goals simp [sample_terms]

theorem sample_neg (w : Waveform α) (t : α) : (-w).sample t = -w.sample t := by
  change (w.scale (-1)).sample t = _
  rw [sample_scale, neg_one_mul]

theorem sample_sub (v w : Waveform α) (t : α) : (v - w).sample t = v.sample t - w.sample t := by
  change (v + -w).sample t = _
  rw [sample_add, sample_neg, sub_eq_add_neg]

theorem sample_mul (v w : Waveform α) (t : α) : (v * w).sample t = v.sample t * w.sample t := by
  change (v.mul w).sample t = _
  rw [mul.eq_def]
  split
  · rw [sample_zero, zero_mul]
  · rw [sample_zero, mul_zero]
  · rw [sample_scale, sample]
  · rw [sample_scale, sample, mul_comm]
  · rw [sample_product]

/-- Waveforms added one by one onto a first one add their values to its value. -/
theorem sample_foldl_add {ι : Type} (f : ι → Waveform α) (xs : List ι) (acc : Waveform α) (t : α) :
    (xs.foldl (fun acc x => acc + f x) acc).sample t =
      acc.sample t + (xs.map fun x => (f x).sample t).sum := by
  induction xs generalizing acc with
  | nil => rw [List.foldl_nil, List.map_nil, List.sum_nil, add_zero]
  | cons x xs ih => rw [List.foldl_cons, ih, sample_add, List.map_cons, List.sum_cons, add_assoc]

/-- **The operators mean what they are written as.** Whatever they fold away, and whatever the expressions
are that they are given, their results have at every time the values that the same operations make of the
values; and pulses added one by one onto zero have the sum of their values. -/
theorem operators_are_pointwise (v w : Waveform α) (k dt t : α) (pulses : List (Waveform α)) :
    (v + w).sample t = v.sample t + w.sample t ∧
    (v - w).sample t = v.sample t - w.sample t ∧
    (-v).sample t = -v.sample t ∧
    (v * w).sample t = v.sample t * w.sample t ∧
    (v.scale k).sample t = k * v.sample t ∧
    (k * v).sample t = k * v.sample t ∧
    (v >>> dt).sample t = v.sample (t - dt) ∧
    (pulses.foldl (· + ·) zero).sample t = (pulses.map fun w => w.sample t).sum := by
  refine ⟨sample_add v w t, sample_sub v w t, sample_neg v t, sample_mul v w t, sample_scale v k t,
    sample_factor k v t, sample_delay v dt t, ?_⟩
  have hpulses := sample_foldl_add id pulses zero t
  rwa [sample_zero, zero_add] at hpulses

/-! ### Derivatives -/

theorem sample_derivative_constant (c t : α) : (constant c).derivative.sample t = 0 := by
  rw [constant]
  split <;> rw [derivative, sample_zero]

/-- What counts as vanishing is zero everywhere. -/
theorem value_of_vanishes {p : Primitive α} {n : ℕ} (h : p.vanishes n = true) (t : α) :
    p.value t n = 0 := by
  cases p with
  | step edge shape =>
    simp only [Primitive.vanishes, Bool.and_eq_true, Bool.or_eq_true, decide_eq_true_eq] at h
    obtain ⟨hn, hflat⟩ := h
    rw [Primitive.value, stepValue]
    split
    · exact if_neg fun hzero => hn hzero.1
    · next hpos =>
      obtain ⟨rfl, hlt⟩ := hflat.resolve_left hpos
      simp only [if_neg hlt.ne', ite_self]
  | cosPulse width | gaussian width =>
    have hwidth : width ≤ 0 := by simpa [Primitive.vanishes] using h
    rw [Primitive.value, if_pos (Or.inl hwidth)]
  | carrier omega phase =>
    simp only [Primitive.vanishes, Bool.and_eq_true, decide_eq_true_eq, beq_iff] at h
    obtain ⟨hn, rfl⟩ := h
    rw [Primitive.value, Scalar.power_eq, zero_pow hn, zero_mul]

/-- A primitive that is dropped from a derivative is zero there, so that the derivative always has the
values of the next order. -/
theorem sample_derivative_prim (p : Primitive α) (n : ℕ) (t : α) :
    (prim p n).derivative.sample t = p.value t (nextOrder n) := by
  rw [derivative]
  split
  · next h => rw [sample_zero, value_of_vanishes h]
  · rw [sample]

/-- The derivative of a sum of terms has the sum of the values of their derivatives. -/
theorem sample_derivative_terms (ws : List (Waveform α)) (t : α) :
    (sum ws).derivative.sample t = (ws.map fun w => w.derivative.sample t).sum := by
  rw [derivative_sum, sample_foldl_add, sample_zero, zero_add]

theorem sample_derivative_scale (w : Waveform α) (k t : α) :
    (w.scale k).derivative.sample t = k * w.derivative.sample t := by
  rw [scale.eq_def]
  split
  · next h => rw [(beq_iff _ _).mp h, derivative, sample_zero, zero_mul]
  · split
    · next h => rw [(beq_iff _ _).mp h, one_mul]
    · split
      · rw [derivative, sample_zero, mul_zero]
      · rw [sample_derivative_constant, derivative, sample_zero, mul_zero]
      · next k' inner =>
        rw [derivative, sample_scale, ← mul_assoc]
        split
        · next h => rw [(beq_iff _ _).mp h, one_mul]
        · rw [derivative, sample_scale]
      · rw [derivative, sample_scale]

theorem sample_derivative_factor (k : α) (w : Waveform α) (t : α) :
    (k * w).derivative.sample t = k * w.derivative.sample t :=
  sample_derivative_scale w k t

theorem sample_derivative_delay (w : Waveform α) (dt t : α) :
    (w >>> dt).derivative.sample t = w.derivative.sample (t - dt) := by
  have hdelayed : ∀ (w : Waveform α) (dt t : α),
      (delayed w dt).derivative.sample t = w.derivative.sample (t - dt) := by
    intro w dt t
    rw [derivative]
    exact sample_delay w.derivative dt t
  change (w.delay dt).derivative.sample t = _
  rw [delay.eq_def]
  split
  · next h => rw [(beq_iff _ _).mp h, sub_zero]
  · split
    · rw [derivative, sample_zero, sample_zero]
    · rw [derivative, sample_zero, sample_zero]
    · next inner dt' =>
      have hshift : t - dt - dt' = t - (dt' + dt) := by ring
      rw [hdelayed, hshift]
      split
      · next h => rw [(beq_iff _ _).mp h, sub_zero]
      · rw [hdelayed]
    · rw [hdelayed]

theorem sample_derivative_add (v w : Waveform α) (t : α) :
    (v + w).derivative.sample t = v.derivative.sample t + w.derivative.sample t := by
  have hzero : (zero : Waveform α).derivative.sample t = 0 := by rw [derivative, sample_zero]
  have hconst : ∀ c : α, (const c).derivative.sample t = 0 := fun c => by
    rw [derivative, sample_zero]
  change (v.add w).derivative.sample t = _
  rw [add.eq_def]
  split
  · rw [hzero, zero_add]
  · rw [hzero, add_zero]
  · rw [sample_derivative_constant, hconst, hconst, add_zero]
  all_goals simp [sample_derivative_terms]

theorem sample_derivative_sub (v w : Waveform α) (t : α) :
    (v - w).derivative.sample t = v.derivative.sample t - w.derivative.sample t := by
  change (v + w.scale (-1)).derivative.sample t = _
  rw [sample_derivative_add, sample_derivative_scale, neg_one_mul, sub_eq_add_neg]

end Waveform

end PulseControl
