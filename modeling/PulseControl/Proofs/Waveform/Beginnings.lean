import PulseControl.Proofs.Waveform.Kept
import PulseControl.Proofs.Waveform.Support

/-!
# Waveforms that begin

The pulses of a program are not there forever: each is made of steps and envelopes, and a carrier only
ever multiplies one of them. So every pulse has a time before which its support does not reach. Nothing
of the kind is true of the end of the support, which is infinite as soon as there is a step.

* `PulseControl.Bounds.Begins`, `PulseControl.Waveform.Begins` – bounds and waveforms with a beginning;
* `PulseControl.Waveform.Begins.mul` and the like – the operators keep it;
* `PulseControl.Waveform.begins_square`, `PulseControl.Waveform.begins_envelope` – the waveforms that
  pulses are made of;
* `PulseControl.IqPair.Begins.mix` – pairs.
-/

namespace PulseControl

variable {α : Type} [ExactScalar α]

namespace Bounds

/-- **Bounds with a beginning.** -/
def Begins (s : Bounds α) : Prop := ∀ i ∈ s, i.lower ≠ ⊥

variable {s s' c : Bounds α}

omit [ExactScalar α] in
theorem begins_none : Begins (none : Bounds α) := fun _ hi => nomatch hi

omit [ExactScalar α] in
theorem begins_some {i : Interval (WithBotTop α)} (h : i.lower ≠ ⊥) : Begins (some i) := by
  rintro _ ⟨⟩
  exact h

/-- What lies within bounds with a beginning has one. -/
theorem Begins.of_within (h : c.Begins) (hwithin : s.Within c) : s.Begins := by
  intro i hi hbot
  obtain ⟨j, hj, hlower, -⟩ := hwithin i hi
  exact h j hj (le_bot_iff.mp (hlower.trans_eq hbot))

theorem Begins.join (h : s.Begins) (h' : s'.Begins) : (s.join s').Begins := by
  cases s with
  | none => exact h'
  | some i =>
    cases s' with
    | none => exact h
    | some j =>
      refine begins_some fun hbot => ?_
      rcases min_eq_bot.mp hbot with hlower | hlower
      · exact h i rfl hlower
      · exact h' j rfl hlower

theorem Begins.delay (h : s.Begins) (dt : α) : (s.delay dt).Begins := by
  intro i hi hbot
  obtain ⟨j, hj, rfl⟩ := Option.map_eq_some_iff.mp hi
  exact h j hj (ExactLine.shift_eq_bot.mp hbot)

end Bounds

namespace Waveform

/-- **A waveform whose support has a beginning.** -/
def Begins (w : Waveform α) : Prop := Bounds.Begins (w.support : Bounds α)

variable {v w : Waveform α}

theorem begins_zero : (zero : Waveform α).Begins := Bounds.begins_none

theorem Begins.add (hv : v.Begins) (hw : w.Begins) : (v + w).Begins :=
  (Bounds.Begins.join hv hw).of_within
    (within_add (Bounds.within_join_left _ _) (Bounds.within_join_right _ _))

theorem Begins.sub (hv : v.Begins) (hw : w.Begins) : (v - w).Begins :=
  (Bounds.Begins.join hv hw).of_within
    (within_sub (Bounds.within_join_left _ _) (Bounds.within_join_right _ _))

theorem Begins.factor (h : w.Begins) (k : α) : (k * w).Begins :=
  Bounds.Begins.of_within h (within_scale w k)

theorem Begins.delay (h : w.Begins) (dt : α) : (w >>> dt).Begins := by
  rw [Begins, support_delay]
  exact Bounds.Begins.delay h dt

/-- One factor with a beginning is enough. -/
theorem Begins.mul (h : v.Begins) (w : Waveform α) : (v * w).Begins :=
  Bounds.Begins.of_within h ((within_mul v w).trans (Bounds.common_within_left _ _))

theorem Begins.derivative (h : w.Begins) : w.derivative.Begins :=
  Bounds.Begins.of_within h (within_derivative w)

/-! ### What pulses are made of -/

theorem begins_prim {p : Primitive α} {n : ℕ} (h : (p.bounds n : Interval (WithBotTop α)).lower ≠ ⊥) :
    (prim p n).Begins := by
  rw [Begins]
  cases hvanishes : p.vanishes n with
  | true =>
    rw [support_prim_of_vanishes hvanishes]
    exact Bounds.begins_none
  | false =>
    rw [support_prim hvanishes]
    exact Bounds.begins_some h

theorem begins_step (edge : α) (shape : EdgeShape) : (step edge shape).Begins := by
  refine begins_prim ?_
  rw [bounds_step, if_pos rfl]
  exact WithBotTop.coe_ne_bot _

theorem begins_square (width edge : α) (shape : EdgeShape) : (square width edge shape).Begins :=
  ((begins_step edge shape).delay _).sub ((begins_step edge shape).delay _)

theorem begins_envelope (shape : PulseShape) (width : α) : (envelope shape width).Begins := by
  have hcut : ∀ p : Primitive α, p = .cosPulse width ∨ p = .gaussian width → (prim p 0).Begins := by
    intro p hp
    refine begins_prim ?_
    rw [bounds_cut hp]
    exact WithBotTop.coe_ne_bot _
  cases shape with
  | cosPulse => exact hcut _ (Or.inl rfl)
  | gaussian => exact hcut _ (Or.inr rfl)
  | square => exact begins_square width 0 .cos

/-- The operators keep a beginning. -/
theorem kept_begins : Kept (Begins (α := α)) where
  zero := begins_zero
  step := begins_step
  envelope := begins_envelope
  add := Begins.add
  sub := Begins.sub
  factor := Begins.factor
  delay := Begins.delay
  derivative := Begins.derivative
  mul_carrier hw _ _ := hw.mul _

end Waveform

/-! ### Pairs -/

namespace IqPair

/-- **A pair whose components begin.** -/
structure Begins (p : IqPair α) : Prop where
  i : p.i.Begins
  q : p.q.Begins

variable {p : IqPair α}

theorem Begins.mix (h : p.Begins) (options : Mixing α) : (p.mix options).Begins :=
  have hmixed := Waveform.kept_begins.mix h.i h.q options
  ⟨hmixed.1, hmixed.2⟩

end IqPair

end PulseControl
