import Mathlib.Data.List.Forall2

/-!
# Computations that may fail

How a computation that is put together from others succeeds or fails. The lemmas take a sequence of
computations apart into the outcome of its first part and that of the rest, so that no proof about a
check has to unfold the way in which checks are combined.

* `Except.bind_eq_ok`, `Except.bind_eq_error` – two computations, one after the other;
* `Except.mapM_eq_ok`, `Except.forM_eq_ok` – one computation for each element of a list;
* `Except.FailsOnly` – computations that fail only with errors of a kind.
-/

namespace Except

variable {ε τ υ : Type}

@[simp]
theorem bind_ok (a : τ) (f : τ → Except ε υ) : (Except.ok a >>= f) = f a :=
  rfl

@[simp]
theorem bind_error (e : ε) (f : τ → Except ε υ) : (Except.error e >>= f) = .error e :=
  rfl

theorem bind_eq_ok {x : Except ε τ} {f : τ → Except ε υ} {b : υ} :
    (x >>= f) = .ok b ↔ ∃ a, x = .ok a ∧ f a = .ok b := by
  cases x with
  | error e => simp [bind, Except.bind]
  | ok a => simp [bind, Except.bind]

theorem bind_eq_error {x : Except ε τ} {f : τ → Except ε υ} {e : ε} :
    (x >>= f) = .error e ↔ x = .error e ∨ ∃ a, x = .ok a ∧ f a = .error e := by
  cases x with
  | error e => simp [bind, Except.bind]
  | ok a => simp [bind, Except.bind]

@[simp]
theorem discard_ok (a : τ) : discard (Except.ok a : Except ε τ) = .ok PUnit.unit :=
  rfl

@[simp]
theorem discard_error (e : ε) : discard (Except.error e : Except ε τ) = .error e :=
  rfl

theorem discard_eq_ok {x : Except ε τ} {u : PUnit} : discard x = .ok u ↔ ∃ a, x = .ok a := by
  cases x with
  | error e => simp [discard, Functor.mapConst, Except.map]
  | ok a => simp [discard, Functor.mapConst, Except.map]

theorem discard_eq_error {x : Except ε τ} {e : ε} : discard x = .error e ↔ x = .error e := by
  cases x with
  | error e => simp [discard, Functor.mapConst, Except.map]
  | ok a => simp [discard, Functor.mapConst, Except.map]

theorem map_eq_ok {x : Except ε τ} {f : τ → υ} {b : υ} :
    x.map f = .ok b ↔ ∃ a, x = .ok a ∧ f a = b := by
  cases x with
  | error e => simp [Except.map]
  | ok a => simp [Except.map]

theorem map_eq_error {x : Except ε τ} {f : τ → υ} {e : ε} :
    x.map f = .error e ↔ x = .error e := by
  cases x with
  | error e => simp [Except.map]
  | ok a => simp [Except.map]

theorem isOk_eq_true {x : Except ε τ} : x.isOk = true ↔ ∃ a, x = .ok a := by
  cases x with
  | error e => simp [Except.isOk, Except.toBool]
  | ok a => simp [Except.isOk, Except.toBool]

/-- Whether a computation fails with an error that passes a test. -/
def failsWith (test : ε → Bool) : Except ε τ → Bool
  | .ok _ => false
  | .error e => test e

theorem failsWith_eq_true {test : ε → Bool} {x : Except ε τ} :
    x.failsWith test = true ↔ ∃ e, x = .error e ∧ test e = true := by
  cases x with
  | error e => simp [failsWith]
  | ok a => simp [failsWith]

/-- A computation for each element succeeds where each of them does. -/
theorem mapM_eq_ok {f : τ → Except ε υ} {xs : List τ} {ys : List υ} :
    xs.mapM f = .ok ys ↔ List.Forall₂ (fun x y => f x = .ok y) xs ys := by
  induction xs generalizing ys with
  | nil =>
    rw [List.mapM_nil, List.forall₂_nil_left_iff]
    exact ⟨fun h => (Except.ok.inj h).symm, fun h => congrArg Except.ok h.symm⟩
  | cons x xs ih =>
    simp only [List.mapM_cons, bind_eq_ok, List.forall₂_cons_left_iff, ih]
    constructor
    · rintro ⟨y, hy, ys', hys, h⟩
      exact ⟨y, ys', hy, hys, (Except.ok.inj h).symm⟩
    · rintro ⟨y, ys', hy, hys, rfl⟩
      exact ⟨y, hy, ys', hys, rfl⟩

/-- Checks of all elements succeed where each of them does. -/
theorem forM_eq_ok {f : τ → Except ε Unit} {xs : List τ} {u : Unit} :
    xs.forM f = .ok u ↔ ∀ x ∈ xs, f x = .ok () := by
  induction xs with
  | nil => exact iff_of_true rfl (List.forall_mem_nil _)
  | cons x xs ih =>
    rw [List.forM, bind_eq_ok, List.forall_mem_cons, ih]
    constructor
    · rintro ⟨⟨⟩, hx, hxs⟩
      exact ⟨hx, hxs⟩
    · rintro ⟨hx, hxs⟩
      exact ⟨(), hx, hxs⟩

/-- What a computation gives for an element is among what it gives for a list. -/
theorem exists_of_mem_mapM {f : τ → Except ε υ} {xs : List τ} {ys : List υ} {x : τ}
    (h : xs.mapM f = .ok ys) (hx : x ∈ xs) : ∃ y ∈ ys, f x = .ok y := by
  have hall := mapM_eq_ok.mp h
  clear h
  induction hall with
  | nil => cases hx
  | cons hy _ ih =>
    rcases List.mem_cons.mp hx with rfl | hx
    · exact ⟨_, List.mem_cons_self, hy⟩
    · obtain ⟨y, hmem, hfy⟩ := ih hx
      exact ⟨y, List.mem_cons_of_mem _ hmem, hfy⟩

/-- What a computation gives for a list it gives for one of the elements. -/
theorem exists_of_mem_result {f : τ → Except ε υ} {xs : List τ} {ys : List υ} {y : υ}
    (h : xs.mapM f = .ok ys) (hy : y ∈ ys) : ∃ x ∈ xs, f x = .ok y := by
  have hall := mapM_eq_ok.mp h
  clear h
  induction hall with
  | nil => cases hy
  | cons hfx _ ih =>
    rcases List.mem_cons.mp hy with rfl | hy
    · exact ⟨_, List.mem_cons_self, hfx⟩
    · obtain ⟨x, hmem, hfx⟩ := ih hy
      exact ⟨x, List.mem_cons_of_mem _ hmem, hfx⟩

/-- A computation for each element fails with the error of one of them. -/
theorem exists_of_mapM_eq_error {f : τ → Except ε υ} {xs : List τ} {e : ε}
    (h : xs.mapM f = .error e) : ∃ x ∈ xs, f x = .error e := by
  induction xs with
  | nil => exact nomatch h
  | cons x xs ih =>
    simp only [List.mapM_cons, bind_eq_error] at h
    rcases h with hx | ⟨y, -, hxs | ⟨ys, -, hdone⟩⟩
    · exact ⟨x, List.mem_cons_self, hx⟩
    · obtain ⟨x', hmem, hx'⟩ := ih hxs
      exact ⟨x', List.mem_cons_of_mem _ hmem, hx'⟩
    · exact nomatch hdone

/-! ### Errors of a kind -/

/-- **A computation fails only with errors of a kind.** -/
def FailsOnly (P : ε → Prop) (x : Except ε τ) : Prop := ∀ e, x = .error e → P e

namespace FailsOnly

variable {P : ε → Prop} {x : Except ε τ}

theorem ok (a : τ) : FailsOnly P (.ok a : Except ε τ) := fun _ h => nomatch h

theorem error {e : ε} (h : P e) : FailsOnly P (.error e : Except ε τ) := fun _ he =>
  Except.error.inj he ▸ h

theorem bind {f : τ → Except ε υ} (h : FailsOnly P x) (hf : ∀ a, x = .ok a → FailsOnly P (f a)) :
    FailsOnly P (x >>= f) := by
  intro e he
  rcases bind_eq_error.mp he with hx | ⟨a, ha, hfa⟩
  · exact h e hx
  · exact hf a ha e hfa

theorem map (f : τ → υ) (h : FailsOnly P x) : FailsOnly P (x.map f) := fun e he =>
  h e (map_eq_error.mp he)

theorem mapM {f : τ → Except ε υ} {xs : List τ} (h : ∀ x ∈ xs, FailsOnly P (f x)) :
    FailsOnly P (xs.mapM f) := by
  intro e he
  obtain ⟨x, hx, hfx⟩ := exists_of_mapM_eq_error he
  exact h x hx e hfx

theorem forM {f : τ → Except ε Unit} {xs : List τ} (h : ∀ x ∈ xs, FailsOnly P (f x)) :
    FailsOnly P (xs.forM f) := by
  induction xs with
  | nil => exact .ok ()
  | cons x xs ih =>
    obtain ⟨hx, hxs⟩ := List.forall_mem_cons.mp h
    exact hx.bind fun _ _ => ih hxs

end FailsOnly

end Except
