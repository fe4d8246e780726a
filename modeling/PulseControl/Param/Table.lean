import PulseControl.Scalar

/-!
# Interpolation tables

A table maps a number to a number by straight lines between its points, which stand in two rows of the
same length with ascending first row. A table has at least one point by construction.

* `PulseControl.Table.ofRows` – the table of two rows, or what is wrong with them;
* `PulseControl.Table.interp` – the interpolation, clamped to the end values.
-/

namespace PulseControl

/-- What is wrong with the rows of a table. -/
inductive TableFault where
  /-- There are not two rows. -/
  | rowCount (count : Nat)
  /-- The rows are empty or differ in length. -/
  | rowLengths (first second : Nat)
  /-- An entry is not finite. -/
  | notFinite
  /-- The first row is not ascending. -/
  | notAscending
  deriving DecidableEq, Repr

/-- The wording of a fault. -/
def TableFault.message : TableFault → String
  | .rowCount count => "expected 2 rows, got " ++ toString count
  | .rowLengths first second =>
    "rows must have equal non-zero length, got " ++ toString first ++ " and " ++ toString second
  | .notFinite => "entries must be finite"
  | .notAscending => "x values must be ascending"

/-- The points of a table, the first one apart. -/
structure Table (α : Type) where
  first : α × α
  rest : List (α × α)
  deriving Repr

namespace Table

variable {α : Type} [Scalar α]

/-- Whether no number of a row is less than the one before it. -/
def ascending : List α → Bool
  | x :: y :: ys => !decide (y < x) && ascending (y :: ys)
  | _ => true

/-- The table of two rows of equal length that are not empty, finite, and ascending in the first. -/
def ofRows : List (List α) → Except TableFault (Table α)
  | [xs, ys] =>
    if xs.length ≠ ys.length then .error (.rowLengths xs.length ys.length)
    else
      match xs.zip ys with
      | [] => .error (.rowLengths xs.length ys.length)
      | p :: ps =>
        if ¬ (xs.all Scalar.isFinite ∧ ys.all Scalar.isFinite) then .error .notFinite
        else if ¬ ascending xs then .error .notAscending
        else .ok ⟨p, ps⟩
  | rows => .error (.rowCount rows.length)

/-- All points. -/
def points (t : Table α) : List (α × α) := t.first :: t.rest

/-- The last point. -/
def last (t : Table α) : α × α := t.rest.getLast?.getD t.first

/-- The line through two points, at `x`. -/
def line (p q : α × α) (x : α) : α :=
  if q.1 == p.1 then q.2 else p.2 + (q.2 - p.2) * (x - p.1) / (q.1 - p.1)

/-- The lines through `p` and the points after it, the one that ends at the first point beyond `x`. -/
def segment (x : α) (p : α × α) : List (α × α) → α
  | [] => p.2
  | q :: qs => if q.1 ≤ x then segment x q qs else line p q x

/-- **Interpolation** at `x`. What is no number goes to the first value. -/
def interp (t : Table α) (x : α) : α :=
  if Scalar.isUndefined x ∨ x ≤ t.first.1 then t.first.2
  else if t.last.1 ≤ x then t.last.2
  else segment x t.first t.rest

end Table

end PulseControl
