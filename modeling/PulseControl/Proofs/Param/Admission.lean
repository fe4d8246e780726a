import PulseControl.Proofs.Param.Resolution

/-!
# What a declaration admits

The check of a value looks for a fault, kind of value by kind of value. Here the values without fault are
described instead: a string is one of the choices, a number is finite and not negative where negative
numbers are refused, and the rows of a table are the coordinates of points from left to right.

* `PulseControl.Table.Tabular`, `PulseControl.Table.ofRows_eq_ok` – the rows that are a table;
* `PulseControl.ParamSpec.Admits`, `PulseControl.ParamSpec.fault?_eq_none` – the values without fault.
-/

namespace PulseControl

variable {α : Type} [Scalar α]

namespace Table

/-- **Two rows are a table**: there is a point, every point has two coordinates, these are finite, and no
point lies to the left of the one before it. -/
structure Tabular (xs ys : List α) : Prop where
  nonempty : xs ≠ []
  length_eq : xs.length = ys.length
  finite_left : ∀ x ∈ xs, Scalar.isFinite x = true
  finite_right : ∀ y ∈ ys, Scalar.isFinite y = true
  ascending : xs.IsChain fun x y => ¬y < x

theorem ascending_eq_true {xs : List α} :
    ascending xs = true ↔ xs.IsChain fun x y => ¬y < x := by
  induction xs with
  | nil => exact iff_of_true rfl .nil
  | cons x xs ih =>
    cases xs with
    | nil => exact iff_of_true rfl (.singleton x)
    | cons y ys =>
      rw [ascending, Bool.and_eq_true, List.isChain_cons_cons, ih]
      exact and_congr_left' (by simp)

/-- **The rows that are a table**, and the table that they are. -/
theorem ofRows_eq_ok {rows : List (List α)} {t : Table α} :
    ofRows rows = .ok t ↔ ∃ xs ys, rows = [xs, ys] ∧ Tabular xs ys ∧ t.points = xs.zip ys := by
  constructor
  · intro h
    rw [ofRows.eq_def] at h
    split at h
    · next xs ys =>
      split at h
      · cases h
      next hlength =>
      rw [not_not] at hlength
      split at h
      · cases h
      next p ps hzip =>
      split at h
      · cases h
      next hfinite =>
      split at h
      · cases h
      next hascending =>
      cases h
      rw [not_not, List.all_eq_true, List.all_eq_true] at hfinite
      have hnonempty : xs ≠ [] := by
        rintro rfl
        cases hzip
      exact ⟨xs, ys, rfl, ⟨hnonempty, hlength, hfinite.1, hfinite.2,
        ascending_eq_true.mp (not_not.mp hascending)⟩, hzip.symm⟩
    · cases h
  · rintro ⟨xs, ys, rfl, ⟨hnonempty, hlength, hleft, hright, hascending⟩, hpoints⟩
    have hzip : xs.zip ys = t.first :: t.rest := hpoints.symm
    rw [ofRows, if_neg (not_not.mpr hlength), hzip]
    dsimp only
    rw [if_neg (not_not.mpr ⟨List.all_eq_true.mpr hleft, List.all_eq_true.mpr hright⟩),
      if_neg (not_not.mpr (ascending_eq_true.mpr hascending))]

/-- Rows that are a table are the table of something. -/
theorem exists_ofRows_iff {rows : List (List α)} :
    (∃ t, ofRows rows = .ok t) ↔ ∃ xs ys, rows = [xs, ys] ∧ Tabular xs ys := by
  constructor
  · rintro ⟨t, h⟩
    obtain ⟨xs, ys, hrows, htabular, -⟩ := ofRows_eq_ok.mp h
    exact ⟨xs, ys, hrows, htabular⟩
  · rintro ⟨xs, ys, rfl, htabular⟩
    cases hzip : xs.zip ys with
    | nil =>
      rcases List.zip_eq_nil_iff.mp hzip with hxs | hys
      · exact absurd hxs htabular.nonempty
      · have hlength := htabular.length_eq
        rw [hys, List.length_nil, List.length_eq_zero_iff] at hlength
        exact absurd hlength htabular.nonempty
    | cons p ps => exact ⟨⟨p, ps⟩, ofRows_eq_ok.mpr ⟨xs, ys, rfl, htabular, hzip.symm⟩⟩

end Table

namespace ParamSpec

variable {s : ParamSpec α} {v : ParamValue α}

/-- **What a declaration admits** among the values of its type. -/
def Admits (s : ParamSpec α) : ParamValue α → Prop
  | .str v => ∀ choices, s.choices = some choices → v ∈ choices
  | .table rows => ∃ xs ys, rows = [xs, ys] ∧ Table.Tabular xs ys
  | .float x => Scalar.isFinite x = true ∧ ¬(s.nonNegative = true ∧ x < 0)
  | .int i => ¬(s.nonNegative = true ∧ i < 0)
  | .bool _ => True

/-- **The values without fault** are those that the declaration admits. -/
theorem fault?_eq_none : s.fault? v = none ↔ s.Admits v := by
  cases v with
  | bool b => exact iff_of_true rfl trivial
  | int i => simp [fault?, Admits]
  | float x => exact fault?_float_eq_none
  | str v =>
    rw [fault?, Admits]
    cases s.choices with
    | none => simp
    | some choices => simp
  | table rows =>
    rw [Admits, ← Table.exists_ofRows_iff, fault?]
    cases Table.ofRows rows with
    | ok t => simp
    | error fault => simp

end ParamSpec

end PulseControl
