import Mathlib.Tactic.FieldSimp
import Mathlib.Tactic.Ring
import PulseControl.Param.Table
import PulseControl.Proofs.ExactScalar

/-!
# Tables of two points

The tables that the library has as defaults are of two points. Such a table is the line through its points,
at the argument clamped to the range between them.

* `PulseControl.Table.ofRows_pair` – two rows of two entries are a table;
* `PulseControl.Table.interp_pair` – what such a table gives.
-/

namespace PulseControl

namespace Table

variable {α : Type} [ExactScalar α] {x y : α}

/-- Two points, the second not before the first, are a table. -/
theorem ofRows_pair (h : x ≤ y) (u v : α) :
    Table.ofRows [[x, y], [u, v]] = .ok ⟨(x, u), [(y, v)]⟩ := by
  have hfinite : ∀ a : α, Scalar.isFinite a = true := ExactScalar.isFinite_eq
  have hascending : Table.ascending [x, y] = true := by simp [Table.ascending, h]
  simp [Table.ofRows, hfinite, hascending]

/-- **A table of two points** follows the line between them, and stays at the end values outside. -/
theorem interp_pair (h : x < y) (u v t : α) :
    (⟨(x, u), [(y, v)]⟩ : Table α).interp t =
      u + (v - u) * (max x (min y t) - x) / (y - x) := by
  have hdefined : Scalar.isUndefined t = false := ExactScalar.isUndefined_eq t
  have hwidth : y - x ≠ 0 := sub_ne_zero.mpr h.ne'
  rcases le_or_gt t x with hlow | hlow
  · have hfirst : (⟨(x, u), [(y, v)]⟩ : Table α).interp t = u := if_pos (Or.inr hlow)
    rw [hfirst, min_eq_right (hlow.trans h.le), max_eq_left hlow, sub_self, mul_zero, zero_div,
      add_zero]
  · have hinner : ¬(Scalar.isUndefined t = true ∨ t ≤ x) := by
      rw [hdefined]
      exact fun hor => hor.elim Bool.false_ne_true hlow.not_ge
    rcases le_or_gt y t with hhigh | hhigh
    · have hlast : (⟨(x, u), [(y, v)]⟩ : Table α).interp t = v := (if_neg hinner).trans (if_pos hhigh)
      rw [hlast, min_eq_left hhigh, max_eq_right h.le]
      field_simp
      ring
    · have hdistinct : ¬(y == x) = true := fun heq => h.ne' ((ExactScalar.beq_eq_true y x).mp heq)
      have hline : (⟨(x, u), [(y, v)]⟩ : Table α).interp t = u + (v - u) * (t - x) / (y - x) :=
        (if_neg hinner).trans <| (if_neg hhigh.not_ge).trans <|
          (if_neg hhigh.not_ge).trans (if_neg hdistinct)
      rw [hline, min_eq_right hhigh.le, max_eq_right hlow.le]

end Table

end PulseControl
