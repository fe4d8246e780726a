import Mathlib.Order.WithBotTop
import PulseControl.Proofs.ExactScalar

/-!
# The line of interval ends

Bounds of waveforms may be infinite, and exact scalars are finite. The ends of intervals of exact
scalars are therefore the scalars together with a least and a greatest element, `WithBotTop α`, and an
interval end is moved to the right by moving it where it is a scalar.

* `PulseControl.ExactLine.shift` – an end moved to the right;
* `PulseControl.ExactLine.finite?` – the scalar at which an end lies.
-/

namespace PulseControl

namespace ExactLine

variable {α : Type}

/-- The scalar at which an end lies, unless it is infinite. -/
def finite? : WithBotTop α → Option α := WithBotTop.rec none some none

@[simp] theorem finite?_bot : finite? (⊥ : WithBotTop α) = none := rfl

@[simp] theorem finite?_coe (a : α) : finite? (a : WithBotTop α) = some a := rfl

@[simp] theorem finite?_top : finite? (⊤ : WithBotTop α) = none := rfl

variable [ExactScalar α]

/-- An end moved to the right. -/
def shift (x : WithBotTop α) (dt : α) : WithBotTop α :=
  WithBotTop.rec ⊥ (fun a => ((a + dt : α) : WithBotTop α)) ⊤ x

@[simp] theorem shift_bot (dt : α) : shift ⊥ dt = ⊥ := rfl

@[simp] theorem shift_coe (a dt : α) : shift a dt = ((a + dt : α) : WithBotTop α) := rfl

@[simp] theorem shift_top (dt : α) : shift ⊤ dt = ⊤ := rfl

theorem shift_zero (x : WithBotTop α) : shift x 0 = x := by
  induction x using WithBotTop.rec <;> simp

theorem shift_shift (x : WithBotTop α) (a b : α) : shift (shift x a) b = shift x (a + b) := by
  induction x using WithBotTop.rec <;> simp [add_assoc]

theorem shift_le_shift {x y : WithBotTop α} {dt : α} : shift x dt ≤ shift y dt ↔ x ≤ y := by
  induction x using WithBotTop.rec <;> induction y using WithBotTop.rec <;> simp

theorem shift_sub (t dt : α) : shift ((t - dt : α) : WithBotTop α) dt = t := by
  rw [shift_coe, sub_add_cancel]

/-- A time is compared with a moved end as the earlier time with the end. -/
theorem shift_le_coe {x : WithBotTop α} {dt t : α} :
    shift x dt ≤ t ↔ x ≤ ((t - dt : α) : WithBotTop α) := by
  rw [← shift_sub t dt]
  exact shift_le_shift

theorem coe_le_shift {x : WithBotTop α} {dt t : α} :
    t ≤ shift x dt ↔ ((t - dt : α) : WithBotTop α) ≤ x := by
  rw [← shift_sub t dt]
  exact shift_le_shift

theorem shift_eq_bot {x : WithBotTop α} {dt : α} : shift x dt = ⊥ ↔ x = ⊥ := by
  induction x using WithBotTop.rec <;> simp

end ExactLine

instance {α : Type} [ExactScalar α] : ExtendedLine α (WithBotTop α) where
  point a := a
  bottom := ⊥
  top := ⊤
  delay := ExactLine.shift
  min := min
  max := max
  le x y := decide (x ≤ y)
  finite? := ExactLine.finite?

end PulseControl
