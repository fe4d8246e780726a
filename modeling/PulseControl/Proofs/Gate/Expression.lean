import PulseControl.Gate.ArgExpr

/-!
# When an argument expression has a value

The names in an expression are collected by one recursion, and its value is computed by another one, which
gives up at the first name without a value and at the first divisor that is zero. The two agree: nothing
else than names without values and divisors that are zero keeps an expression from having a value, and
nothing else than the values of the names that were collected goes into it.

* `PulseControl.ArgExpr.divisors`, `PulseControl.ArgExpr.IsZero` – the divisors at any depth, and an
  expression whose value is zero;
* `PulseControl.ArgExpr.eval_isSome_iff`, `PulseControl.ArgExpr.eval_congr` – when there is a value, and
  what it depends on;
* `PulseControl.ArgExpr.positional_isSome_iff` – when a name has a value among positional values.
-/

namespace PulseControl.ArgExpr

variable {α : Type}

/-- The divisors in an expression, at any depth. -/
def divisors : ArgExpr α → List (ArgExpr α)
  | .const _ | .symbol _ | .pi => []
  | .neg e => e.divisors
  | .add a b | .sub a b | .mul a b => a.divisors ++ b.divisors
  | .div a b => b :: (a.divisors ++ b.divisors)

variable [Scalar α]

/-- An expression has the value zero. -/
def IsZero (lookup : String → Option α) (e : ArgExpr α) : Prop :=
  ∃ v, e.eval lookup = some v ∧ (v == 0) = true

/-- **Nothing keeps an expression from having a value**: its names have values, and none of its divisors
is zero. -/
def Defined (lookup : String → Option α) (e : ArgExpr α) : Prop :=
  (∀ s ∈ e.symbols, (lookup s).isSome = true) ∧ ∀ d ∈ e.divisors, ¬ d.IsZero lookup

variable {lookup lookup' : String → Option α} {a b e : ArgExpr α}

/-! ### The parts of an expression -/

omit [Scalar α] in
theorem forall_symbols_append {p : String → Prop} {c : ArgExpr α}
    (h : c.occurrences = a.occurrences ++ b.occurrences) :
    (∀ s ∈ c.symbols, p s) ↔ (∀ s ∈ a.symbols, p s) ∧ ∀ s ∈ b.symbols, p s := by
  simp only [mem_symbols, h, List.forall_mem_append]

/-- Two parts that are put together without a division. -/
theorem defined_append {c : ArgExpr α} (hnames : c.occurrences = a.occurrences ++ b.occurrences)
    (hdivisors : c.divisors = a.divisors ++ b.divisors) :
    c.Defined lookup ↔ a.Defined lookup ∧ b.Defined lookup := by
  rw [Defined, Defined, Defined, forall_symbols_append hnames, hdivisors, List.forall_mem_append]
  exact and_and_and_comm

theorem defined_div :
    (div a b).Defined lookup ↔ a.Defined lookup ∧ b.Defined lookup ∧ ¬ b.IsZero lookup := by
  rw [Defined, Defined, Defined, forall_symbols_append (a := a) (b := b) rfl, divisors,
    List.forall_mem_cons, List.forall_mem_append]
  constructor
  · rintro ⟨⟨ha, hb⟩, hzero, hda, hdb⟩
    exact ⟨⟨ha, hda⟩, ⟨hb, hdb⟩, hzero⟩
  · rintro ⟨⟨ha, hda⟩, ⟨hb, hdb⟩, hzero⟩
    exact ⟨⟨ha, hb⟩, hzero, hda, hdb⟩

/-! ### The value -/

omit [Scalar α] in
theorem isSome_map₂ {x y : Option α} (f : α → α → α) :
    (do return f (← x) (← y) : Option α).isSome = true ↔ x.isSome = true ∧ y.isSome = true := by
  cases x <;> cases y <;> simp

/-- A quotient has a value where both of its parts have one and that of the divisor is not zero. -/
theorem eval_div_isSome_iff :
    ((div a b).eval lookup).isSome = true ↔
      (a.eval lookup).isSome = true ∧ (b.eval lookup).isSome = true ∧ ¬ b.IsZero lookup := by
  rw [eval, IsZero]
  cases hb : b.eval lookup with
  | none => simp
  | some divisor =>
    cases hzero : (divisor == 0) with
    | true => simp [hzero]
    | false => cases a.eval lookup <;> simp [hzero]

/-- **An expression has a value** exactly if nothing keeps it from having one. -/
theorem eval_isSome_iff : (e.eval lookup).isSome = true ↔ e.Defined lookup := by
  induction e with
  | const v | pi => simp [eval, Defined, mem_symbols, occurrences, divisors]
  | symbol name => simp [eval, Defined, mem_symbols, occurrences, divisors]
  | neg e ih =>
    have hneg : (neg e).Defined lookup ↔ e.Defined lookup := Iff.rfl
    rw [hneg, ← ih, eval]
    cases e.eval lookup <;> simp
  | add a b iha ihb => rw [defined_append rfl rfl, ← iha, ← ihb, eval, isSome_map₂ (· + ·)]
  | sub a b iha ihb => rw [defined_append rfl rfl, ← iha, ← ihb, eval, isSome_map₂ (· - ·)]
  | mul a b iha ihb => rw [defined_append rfl rfl, ← iha, ← ihb, eval, isSome_map₂ (· * ·)]
  | div a b iha ihb => rw [defined_div, ← iha, ← ihb, eval_div_isSome_iff]

/-- **The value depends on the values of the names alone.** -/
theorem eval_congr (h : ∀ s ∈ e.symbols, lookup s = lookup' s) : e.eval lookup = e.eval lookup' := by
  induction e with
  | const v | pi => rfl
  | symbol name =>
    rw [eval, eval]
    exact h name (mem_symbols.mpr (List.mem_singleton.mpr rfl))
  | neg e ih => rw [eval, eval, ih h]
  | add a b iha ihb | sub a b iha ihb | mul a b iha ihb | div a b iha ihb =>
    obtain ⟨ha, hb⟩ := (forall_symbols_append rfl).mp h
    rw [eval, eval, iha ha, ihb hb]

/-! ### Positional values -/

omit [Scalar α] in
/-- A name has a value among positional values if its first position is one of them. -/
theorem positional_isSome_iff {names : List String} {values : List α} {s : String} :
    (positional names values s).isSome = true ↔
      ∃ i, names.idxOf? s = some i ∧ i < values.length := by
  rw [positional]
  cases names.idxOf? s with
  | none => simp
  | some i => simp

omit [Scalar α] in
/-- A name has a value if it stands at any position that has one: its first position comes no later. -/
theorem positional_isSome_of_getElem? {names : List String} {values : List α} {s : String} {i : Nat}
    (hs : names[i]? = some s) (hi : i < values.length) :
    (positional names values s).isSome = true := by
  obtain ⟨hlt, hget⟩ := List.getElem?_eq_some_iff.mp hs
  have hmem : s ∈ names := hget ▸ List.getElem_mem hlt
  obtain ⟨first, hfirst⟩ := Option.isSome_iff_exists.mp (List.isSome_idxOf?.mpr hmem)
  obtain ⟨_, _, hbefore⟩ := List.idxOf?_eq_some_iff.mp hfirst
  have hle : first ≤ i := Nat.not_lt.mp fun h => hbefore i h hget
  exact positional_isSome_iff.mpr ⟨first, hfirst, Nat.lt_of_le_of_lt hle hi⟩

end PulseControl.ArgExpr
