import PulseControl.Proofs.ExactLine
import PulseControl.Waveform.Calculus

/-!
# Bounds of waveforms

Bounds are an interval, or nothing at all for what is zero everywhere. They are ordered by what they
say: nothing lies within all others. In this order the hull that a sum takes of the bounds of its terms
is the least upper bound, and the common part that a product takes is the greatest lower bound of proper
bounds, so that bounds are compared without looking at their ends.

* `PulseControl.Bounds.Covers`, `PulseControl.Bounds.Within` – the times within some bounds, and bounds
  within others;
* `PulseControl.Bounds.Proper` – an interval that is not empty, and that has no end if it has no
  beginning;
* `PulseControl.Bounds.join_within`, `PulseControl.Bounds.within_common` – hulls and common parts as
  bounds in the order.
-/

namespace PulseControl

/-- What is known of the place of a waveform: an interval that it does not leave, or that it is nowhere.
-/
abbrev Bounds (α : Type) : Type := Option (Interval (WithBotTop α))

namespace Bounds

open ExactLine

variable {α : Type} [ExactScalar α]

/-- **The times within some bounds.** -/
def Covers (s : Bounds α) (t : α) : Prop := ∃ i ∈ s, i.lower ≤ t ∧ t ≤ i.upper

/-- **Some bounds within others.** -/
def Within (s c : Bounds α) : Prop := ∀ i ∈ s, ∃ j ∈ c, j.lower ≤ i.lower ∧ i.upper ≤ j.upper

/-- **Bounds as they should be.** -/
structure Proper (s : Bounds α) : Prop where
  /-- An interval is not empty. -/
  ordered : ∀ i ∈ s, i.lower ≤ i.upper
  /-- An interval without a beginning has no end. -/
  unbounded : ∀ i ∈ s, i.lower = ⊥ → i.upper = ⊤

/-- Bounds that say nothing. -/
def everywhere : Bounds α := some ⟨⊥, ⊤⟩

variable {s s' c c' : Bounds α}

theorem Within.refl (s : Bounds α) : s.Within s := fun i hi => ⟨i, hi, le_rfl, le_rfl⟩

theorem Within.trans (h : s.Within s') (h' : s'.Within c) : s.Within c := by
  intro i hi
  obtain ⟨j, hj, hlower, hupper⟩ := h i hi
  obtain ⟨k, hk, hlower', hupper'⟩ := h' j hj
  exact ⟨k, hk, hlower'.trans hlower, hupper.trans hupper'⟩

theorem none_within (c : Bounds α) : Within none c := fun _ hi => nomatch hi

theorem some_within_some {i j : Interval (WithBotTop α)} :
    Within (some i) (some j) ↔ j.lower ≤ i.lower ∧ i.upper ≤ j.upper := by
  constructor
  · intro h
    obtain ⟨_, ⟨⟩, hle⟩ := h i rfl
    exact hle
  · rintro hle _ ⟨⟩
    exact ⟨j, rfl, hle⟩

theorem within_everywhere (s : Bounds α) : s.Within everywhere :=
  fun _ _ => ⟨_, rfl, bot_le, le_top⟩

theorem Covers.mono {t : α} (h : s.Covers t) (hwithin : s.Within c) : c.Covers t := by
  obtain ⟨i, hi, hlower, hupper⟩ := h
  obtain ⟨j, hj, hlower', hupper'⟩ := hwithin i hi
  exact ⟨j, hj, hlower'.trans hlower, hupper.trans hupper'⟩

theorem proper_none : Proper (none : Bounds α) :=
  ⟨fun _ hi => (nomatch hi), fun _ hi => (nomatch hi)⟩

theorem proper_some {i : Interval (WithBotTop α)} (hordered : i.lower ≤ i.upper)
    (hunbounded : i.lower = ⊥ → i.upper = ⊤) : Proper (some i) := by
  constructor <;> rintro _ ⟨⟩
  · exact hordered
  · exact hunbounded

theorem proper_everywhere : (everywhere : Bounds α).Proper := proper_some bot_le fun _ => rfl

/-! ### Moved bounds -/

/-- Bounds moved to the right. -/
def delay (s : Bounds α) (dt : α) : Bounds α :=
  s.map fun i => ⟨shift i.lower dt, shift i.upper dt⟩

theorem delay_zero (s : Bounds α) : s.delay 0 = s := by
  cases s with
  | none => rfl
  | some i => rw [delay, Option.map_some, shift_zero, shift_zero]

theorem delay_delay (s : Bounds α) (a b : α) : (s.delay a).delay b = s.delay (a + b) := by
  cases s with
  | none => rfl
  | some i => simp only [delay, Option.map_some, shift_shift]

theorem covers_delay {dt t : α} : (s.delay dt).Covers t ↔ s.Covers (t - dt) := by
  constructor
  · rintro ⟨i, hi, hlower, hupper⟩
    obtain ⟨j, hj, rfl⟩ := Option.map_eq_some_iff.mp hi
    exact ⟨j, hj, shift_le_coe.mp hlower, coe_le_shift.mp hupper⟩
  · rintro ⟨j, hj, hlower, hupper⟩
    exact ⟨_, Option.map_eq_some_iff.mpr ⟨j, hj, rfl⟩, shift_le_coe.mpr hlower,
      coe_le_shift.mpr hupper⟩

theorem Within.delay (h : s.Within c) (dt : α) : (s.delay dt).Within (c.delay dt) := by
  intro i hi
  obtain ⟨j, hj, rfl⟩ := Option.map_eq_some_iff.mp hi
  obtain ⟨k, hk, hlower, hupper⟩ := h j hj
  exact ⟨_, Option.map_eq_some_iff.mpr ⟨k, hk, rfl⟩, shift_le_shift.mpr hlower,
    shift_le_shift.mpr hupper⟩

theorem Proper.delay (h : s.Proper) (dt : α) : (s.delay dt).Proper := by
  constructor
  · intro i hi
    obtain ⟨j, hj, rfl⟩ := Option.map_eq_some_iff.mp hi
    exact shift_le_shift.mpr (h.ordered j hj)
  · intro i hi hbot
    obtain ⟨j, hj, rfl⟩ := Option.map_eq_some_iff.mp hi
    have htop : j.upper = ⊤ := h.unbounded j hj (shift_eq_bot.mp hbot)
    exact (congrArg (shift · dt) htop).trans (shift_top dt)

/-! ### Hulls -/

/-- The hull of two bounds, where there are both. -/
def join : Bounds α → Bounds α → Bounds α
  | none, s => s
  | s, none => s
  | some i, some j => some (i.hull (α := α) j)

/-- **The hull is the least upper bound.** -/
theorem join_within : (s.join s').Within c ↔ s.Within c ∧ s'.Within c := by
  cases s with
  | none => exact ⟨fun h => ⟨none_within c, h⟩, fun h => h.2⟩
  | some i =>
    cases s' with
    | none => exact ⟨fun h => ⟨h, none_within c⟩, fun h => h.1⟩
    | some j =>
      constructor
      · intro h
        obtain ⟨k, hk, hlower, hupper⟩ := h _ rfl
        obtain ⟨hi, hj⟩ := le_min_iff.mp hlower
        obtain ⟨hi', hj'⟩ := max_le_iff.mp hupper
        constructor
        · rintro _ ⟨⟩
          exact ⟨k, hk, hi, hi'⟩
        · rintro _ ⟨⟩
          exact ⟨k, hk, hj, hj'⟩
      · rintro ⟨hi, hj⟩ _ ⟨⟩
        obtain ⟨k, hk, hlower, hupper⟩ := hi i rfl
        obtain ⟨k', hk', hlower', hupper'⟩ := hj j rfl
        obtain rfl : k = k' := Option.mem_unique hk hk'
        exact ⟨k, hk, le_min hlower hlower', max_le hupper hupper'⟩

theorem within_join_left (s s' : Bounds α) : s.Within (s.join s') :=
  (join_within.mp (Within.refl _)).1

theorem within_join_right (s s' : Bounds α) : s'.Within (s.join s') :=
  (join_within.mp (Within.refl _)).2

theorem Proper.join (h : s.Proper) (h' : s'.Proper) : (s.join s').Proper := by
  cases s with
  | none => exact h'
  | some i =>
    cases s' with
    | none => exact h
    | some j =>
      constructor
      · rintro _ ⟨⟩
        have hi : i.lower ≤ i.upper := h.ordered i rfl
        exact (min_le_left _ _).trans (hi.trans (le_max_left _ _))
      · rintro _ ⟨⟩ hbot
        rcases min_eq_bot.mp hbot with hlower | hlower
        · exact max_eq_top.mpr (Or.inl (h.unbounded i rfl hlower))
        · exact max_eq_top.mpr (Or.inr (h'.unbounded j rfl hlower))

/-! ### Common parts -/

/-- The common part of two bounds, if it is not empty. -/
def common (s s' : Bounds α) : Bounds α := s.bind fun i => s'.bind fun j => i.meet (α := α) j

theorem mem_common {k : Interval (WithBotTop α)} :
    k ∈ s.common s' ↔ ∃ i ∈ s, ∃ j ∈ s', max i.lower j.lower ≤ min i.upper j.upper ∧
      k = ⟨max i.lower j.lower, min i.upper j.upper⟩ := by
  have hmeet : ∀ i j : Interval (WithBotTop α), k ∈ i.meet (α := α) j ↔
      max i.lower j.lower ≤ min i.upper j.upper ∧
        k = ⟨max i.lower j.lower, min i.upper j.upper⟩ := by
    intro i j
    by_cases hle : max i.lower j.lower ≤ min i.upper j.upper
    · have hsome : i.meet (α := α) j = some ⟨max i.lower j.lower, min i.upper j.upper⟩ :=
        if_pos (decide_eq_true hle)
      rw [hsome, Option.mem_some_iff, and_iff_right hle, eq_comm]
    · have hnone : i.meet (α := α) j = none := if_neg fun h => hle (of_decide_eq_true h)
      rw [hnone]
      exact ⟨fun h => (nomatch h), fun h => absurd h.1 hle⟩
  simp only [common, Option.mem_def, Option.bind_eq_some_iff] at hmeet ⊢
  simp only [hmeet]

theorem common_within_left (s s' : Bounds α) : (s.common s').Within s := by
  intro k hk
  obtain ⟨i, hi, j, -, -, rfl⟩ := mem_common.mp hk
  exact ⟨i, hi, le_max_left _ _, min_le_left _ _⟩

theorem common_within_right (s s' : Bounds α) : (s.common s').Within s' := by
  intro k hk
  obtain ⟨i, -, j, hj, -, rfl⟩ := mem_common.mp hk
  exact ⟨j, hj, le_max_right _ _, min_le_right _ _⟩

/-- **The common part is the greatest lower bound** of what holds something. -/
theorem Within.common (h : s.Within c) (h' : s.Within c') (hproper : s.Proper) :
    s.Within (c.common c') := by
  intro k hk
  obtain ⟨i, hi, hlower, hupper⟩ := h k hk
  obtain ⟨j, hj, hlower', hupper'⟩ := h' k hk
  have hlow : max i.lower j.lower ≤ k.lower := max_le hlower hlower'
  have hupp : k.upper ≤ min i.upper j.upper := le_min hupper hupper'
  have hholds : max i.lower j.lower ≤ min i.upper j.upper :=
    hlow.trans ((hproper.ordered k hk).trans hupp)
  exact ⟨_, mem_common.mpr ⟨i, hi, j, hj, hholds, rfl⟩, hlow, hupp⟩

theorem Covers.common {t : α} (h : s.Covers t) (h' : s'.Covers t) : (s.common s').Covers t := by
  obtain ⟨i, hi, hlower, hupper⟩ := h
  obtain ⟨j, hj, hlower', hupper'⟩ := h'
  have hlow : max i.lower j.lower ≤ (t : WithBotTop α) := max_le hlower hlower'
  have hupp : (t : WithBotTop α) ≤ min i.upper j.upper := le_min hupper hupper'
  exact ⟨_, mem_common.mpr ⟨i, hi, j, hj, hlow.trans hupp, rfl⟩, hlow, hupp⟩

theorem Proper.common (h : s.Proper) (h' : s'.Proper) : (s.common s').Proper := by
  constructor
  · intro k hk
    obtain ⟨i, -, j, -, hle, rfl⟩ := mem_common.mp hk
    exact hle
  · intro k hk hbot
    obtain ⟨i, hi, j, hj, -, rfl⟩ := mem_common.mp hk
    obtain ⟨hlower, hlower'⟩ := max_eq_bot.mp hbot
    exact min_eq_top.mpr ⟨h.unbounded i hi hlower, h'.unbounded j hj hlower'⟩

end Bounds

end PulseControl
