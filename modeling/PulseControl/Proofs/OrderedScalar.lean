import PulseControl.Proofs.ExactScalar

/-!
# Numbers in order

Floats that are numbers can be compared, and exact scalars can. What the two have in common is a little
less than a linear order: a scalar that is no number stands nowhere in it, and the two zeros are different
floats that compare equal. Positive numbers, however, are told apart. That is enough to speak of the
greatest of 0 and some numbers: it is 0 itself or one of the numbers, and it does not depend on the order
in which they are looked at.

* `PulseControl.OrderedScalar` – scalars whose numbers stand in order, which exact scalars do;
* `PulseControl.Scalar.foldl_max_le` – the greatest of some numbers is their least bound;
* `PulseControl.Scalar.foldl_max_cases` – it is the first one, or a greater one of the others.
-/

namespace PulseControl

/-- A scalar that is a number, which may be infinite. -/
def Scalar.Defined {α : Type} [Scalar α] (a : α) : Prop := Scalar.isUndefined a = false

/-- **Scalars whose numbers stand in order.** Numbers that compare equal need not be identical, unless they
are positive. -/
class OrderedScalar (α : Type) [Scalar α] : Prop where
  defined_zero : Scalar.Defined (0 : α)
  le_total : ∀ {a b : α}, Scalar.Defined a → Scalar.Defined b → a ≤ b ∨ b ≤ a
  le_trans : ∀ {a b c : α}, a ≤ b → b ≤ c → a ≤ c
  lt_iff : ∀ {a b : α}, Scalar.Defined a → Scalar.Defined b → (a < b ↔ ¬b ≤ a)
  beq_iff : ∀ {a b : α}, (a == b) = true ↔ a ≤ b ∧ b ≤ a
  eq_of_pos : ∀ {a b : α}, 0 < a → a ≤ b → b ≤ a → a = b
  max_eq : ∀ {a b : α}, Scalar.Defined a → Scalar.max a b = if a < b then b else a

/-- An exact scalar is a number. -/
theorem ExactScalar.defined {α : Type} [ExactScalar α] (a : α) : Scalar.Defined a := isUndefined_eq a

/-- Exact scalars stand in order, and all of them are told apart. -/
instance {α : Type} [ExactScalar α] : OrderedScalar α where
  defined_zero := ExactScalar.defined 0
  le_total _ _ := le_total _ _
  le_trans := le_trans
  lt_iff _ _ := lt_iff_not_ge
  beq_iff := (ExactScalar.beq_eq_true _ _).trans le_antisymm_iff
  eq_of_pos _ := le_antisymm
  max_eq {a b} _ := by
    split
    · next h => exact max_eq_right h.le
    · next h => exact max_eq_left (not_lt.mp h)

namespace Scalar

variable {α : Type} [Scalar α] [OrderedScalar α] {a b c : α}

theorem Defined.le_refl (ha : Defined a) : a ≤ a := (OrderedScalar.le_total ha ha).elim id id

theorem Defined.not_lt (ha : Defined a) (hb : Defined b) : ¬a < b ↔ b ≤ a := by
  rw [OrderedScalar.lt_iff ha hb, not_not]

theorem Defined.le_of_lt (ha : Defined a) (hb : Defined b) (h : a < b) : a ≤ b :=
  (OrderedScalar.le_total ha hb).resolve_right ((OrderedScalar.lt_iff ha hb).mp h)

theorem Defined.lt_of_le_of_lt (ha : Defined a) (hb : Defined b) (hc : Defined c) (hab : a ≤ b)
    (hbc : b < c) : a < c :=
  (OrderedScalar.lt_iff ha hc).mpr fun hca =>
    (OrderedScalar.lt_iff hb hc).mp hbc (OrderedScalar.le_trans hca hab)

theorem Defined.lt_of_lt_of_le (ha : Defined a) (hb : Defined b) (hc : Defined c) (hab : a < b)
    (hbc : b ≤ c) : a < c :=
  (OrderedScalar.lt_iff ha hc).mpr fun hca =>
    (OrderedScalar.lt_iff ha hb).mp hab (OrderedScalar.le_trans hbc hca)

/-! ### The greatest of some numbers -/

theorem Defined.max (ha : Defined a) (hb : Defined b) : Defined (Scalar.max a b) := by
  rw [OrderedScalar.max_eq ha]
  split
  · exact hb
  · exact ha

theorem Defined.max_le_iff (ha : Defined a) (hb : Defined b) :
    Scalar.max a b ≤ c ↔ a ≤ c ∧ b ≤ c := by
  rw [OrderedScalar.max_eq ha]
  split
  · next h => exact (and_iff_right_of_imp (OrderedScalar.le_trans (ha.le_of_lt hb h))).symm
  · next h => exact (and_iff_left_of_imp (OrderedScalar.le_trans ((ha.not_lt hb).mp h))).symm

variable {ι : Type} {f : ι → α} {xs : List ι} {start : α}

theorem foldl_max_defined (hstart : Defined start) (h : ∀ x ∈ xs, Defined (f x)) :
    Defined (xs.foldl (fun latest x => Scalar.max latest (f x)) start) := by
  induction xs generalizing start with
  | nil => exact hstart
  | cons x xs ih =>
    obtain ⟨hx, hrest⟩ := List.forall_mem_cons.mp h
    exact ih (hstart.max hx) hrest

/-- **The greatest of some numbers** is at most what none of them exceeds. -/
theorem foldl_max_le (hstart : Defined start) (h : ∀ x ∈ xs, Defined (f x)) {bound : α} :
    xs.foldl (fun latest x => Scalar.max latest (f x)) start ≤ bound ↔
      start ≤ bound ∧ ∀ x ∈ xs, f x ≤ bound := by
  induction xs generalizing start with
  | nil => simp
  | cons x xs ih =>
    obtain ⟨hx, hrest⟩ := List.forall_mem_cons.mp h
    rw [List.foldl_cons, ih (hstart.max hx) hrest, List.forall_mem_cons, ← and_assoc]
    exact and_congr_left' (hstart.max_le_iff hx)

/-- **The greatest of some numbers** is the first one, or a greater one of the others. -/
theorem foldl_max_cases (hstart : Defined start) (h : ∀ x ∈ xs, Defined (f x)) :
    xs.foldl (fun latest x => Scalar.max latest (f x)) start = start ∨
      start < xs.foldl (fun latest x => Scalar.max latest (f x)) start ∧
        ∃ x ∈ xs, xs.foldl (fun latest x => Scalar.max latest (f x)) start = f x := by
  induction xs generalizing start with
  | nil => exact Or.inl rfl
  | cons x xs ih =>
    obtain ⟨hx, hrest⟩ := List.forall_mem_cons.mp h
    have hdefined := foldl_max_defined (hstart.max hx) hrest
    rw [List.foldl_cons]
    rcases ih (hstart.max hx) hrest with hsame | ⟨hlt, y, hy, hvalue⟩
    · rw [hsame, OrderedScalar.max_eq hstart]
      split
      · next hgreater => exact Or.inr ⟨hgreater, x, List.mem_cons_self, rfl⟩
      · exact Or.inl rfl
    · have hle := ((hstart.max_le_iff hx).mp (hstart.max hx).le_refl).1
      exact Or.inr ⟨hstart.lt_of_le_of_lt (hstart.max hx) hdefined hle hlt, y,
        List.mem_cons_of_mem _ hy, hvalue⟩

end Scalar

end PulseControl
