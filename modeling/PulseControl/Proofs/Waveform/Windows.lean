import Mathlib.Tactic.FieldSimp
import PulseControl.Proofs.Waveform.Pointwise

/-!
# Where a waveform is zero

A pulse is zero before it begins and after it has ended. For an envelope that is so because its closed form
is cut off there, and for a flat top because after its end both of its steps are 1 and cancel. What is made
of such waveforms by the operators is zero outside of their windows again, moved along with the delays.

* `PulseControl.Waveform.VanishesOutside` – a waveform that is zero outside of a window;
* `PulseControl.IqPair.VanishesOutside.mix` – mixing keeps the window of a pair;
* `PulseControl.Waveform.square_vanishes`, `PulseControl.Waveform.envelope_vanishes` – the windows of a flat
  top and of the envelopes.
-/

namespace PulseControl

variable {α : Type} [ExactScalar α]

namespace Waveform

/-- **A waveform that is zero outside of a window.** -/
def VanishesOutside (w : Waveform α) (start finish : α) : Prop :=
  ∀ t, t < start ∨ finish < t → w.sample t = 0

variable {v w : Waveform α} {start finish : α}

theorem vanishesOutside_zero (start finish : α) : (zero : Waveform α).VanishesOutside start finish :=
  fun t _ => sample_zero t

theorem VanishesOutside.mono (h : w.VanishesOutside start finish) {start' finish' : α}
    (hstart : start' ≤ start) (hfinish : finish ≤ finish') : w.VanishesOutside start' finish' :=
  fun t ht => h t (ht.imp (fun hlt => hlt.trans_le hstart) fun hlt => hfinish.trans_lt hlt)

/-- Where a waveform is not zero it is inside of its window. -/
theorem VanishesOutside.inside (h : w.VanishesOutside start finish) {t : α} (ht : w.sample t ≠ 0) :
    start ≤ t ∧ t ≤ finish :=
  ⟨not_lt.mp fun hlt => ht (h t (Or.inl hlt)), not_lt.mp fun hlt => ht (h t (Or.inr hlt))⟩

theorem VanishesOutside.add (hv : v.VanishesOutside start finish)
    (hw : w.VanishesOutside start finish) : (v + w).VanishesOutside start finish := by
  intro t ht
  rw [sample_add, hv t ht, hw t ht, add_zero]

theorem VanishesOutside.sub (hv : v.VanishesOutside start finish)
    (hw : w.VanishesOutside start finish) : (v - w).VanishesOutside start finish := by
  intro t ht
  rw [sample_sub, hv t ht, hw t ht, sub_zero]

theorem VanishesOutside.factor (h : w.VanishesOutside start finish) (k : α) :
    (k * w).VanishesOutside start finish := by
  intro t ht
  rw [sample_factor, h t ht, mul_zero]

/-- A factor that is zero outside of a window is enough. -/
theorem VanishesOutside.mul (h : v.VanishesOutside start finish) (w : Waveform α) :
    (v * w).VanishesOutside start finish := by
  intro t ht
  rw [sample_mul, h t ht, zero_mul]

theorem VanishesOutside.delay (h : w.VanishesOutside start finish) (dt : α) :
    (w >>> dt).VanishesOutside (start + dt) (finish + dt) := by
  intro t ht
  rw [sample_delay]
  exact h _ (ht.imp sub_lt_iff_lt_add.mpr lt_sub_iff_add_lt.mpr)

/-! ### Flat tops -/

/-- The literal 2 of the library is the number 2. -/
theorem two_eq : @OfScientific.ofScientific α Scalar.toOfScientific 20 true 1 = 2 := by
  rw [ExactScalar.ofScientific_eq]
  norm_num

variable {edge width t : α}

/-- A step is zero before its edge. -/
theorem step_before (shape : EdgeShape) (hedge : 0 ≤ edge) (ht : t < -(edge / 2)) :
    (step edge shape).sample t = 0 := by
  rw [step, sample, Primitive.value, stepValue, two_eq]
  split
  · next hle =>
    have hzero : edge = 0 := le_antisymm hle hedge
    have hneg : ¬0 ≤ t := by
      rw [hzero] at ht
      linarith
    rw [if_neg fun h => hneg h.2]
  · next hpos =>
    have hx : (t + edge / 2) / edge ≤ 0 :=
      div_nonpos_of_nonpos_of_nonneg (by linarith) hedge
    rw [if_pos rfl, if_pos hx]

/-- A step is one after its edge. -/
theorem step_after (shape : EdgeShape) (hedge : 0 ≤ edge) (ht : edge / 2 < t) :
    (step edge shape).sample t = 1 := by
  rw [step, sample, Primitive.value, stepValue, two_eq]
  split
  · have hnonneg : 0 ≤ t := by linarith
    rw [if_pos ⟨rfl, hnonneg⟩]
  · next hpos =>
    have hx : 1 ≤ (t + edge / 2) / edge := by
      rw [le_div_iff₀ (not_le.mp hpos)]
      linarith
    have hx' : ¬(t + edge / 2) / edge ≤ 0 := fun h => by linarith
    rw [if_pos rfl, if_neg hx', if_pos hx]

/-- **A flat top** is zero outside of its width and half an edge on both sides: before, both of its steps
are zero, and after, both are one. -/
theorem square_vanishes (shape : EdgeShape) (hwidth : 0 ≤ width) (hedge : 0 ≤ edge) :
    (square width edge shape).VanishesOutside (-(width / 2 + edge / 2)) (width / 2 + edge / 2) := by
  intro t ht
  rw [square, sample_sub, sample_delay, sample_delay, two_eq]
  rcases ht with ht | ht
  · rw [step_before shape hedge (by linarith), step_before shape hedge (by linarith), sub_zero]
  · rw [step_after shape hedge (by linarith), step_after shape hedge (by linarith), sub_self]

/-- The derivatives of a step are zero outside of its edge. -/
theorem slopes_vanish (edge : α) (shape : EdgeShape) {n : ℕ} (hn : n ≠ 0) :
    (prim (.step edge shape) n).VanishesOutside (-(edge / 2)) (edge / 2) := by
  intro t ht
  rw [sample, Primitive.value, stepValue, two_eq]
  split
  · exact if_neg fun h => hn h.1
  · next hpos =>
    have hpos := not_le.mp hpos
    have hout : ¬(0 ≤ (t + edge / 2) / edge ∧ (t + edge / 2) / edge ≤ 1) := by
      rw [le_div_iff₀ hpos, div_le_iff₀ hpos]
      rintro ⟨hlow, hhigh⟩
      rcases ht with ht | ht <;> linarith
    exact if_neg hout

/-- The slope of a step is zero outside of its edge. -/
theorem slope_vanishes (edge : α) (shape : EdgeShape) :
    (step edge shape).derivative.VanishesOutside (-(edge / 2)) (edge / 2) := by
  rw [step, derivative]
  split
  · exact vanishesOutside_zero _ _
  · exact slopes_vanish edge shape (by decide)

/-- A flat top with hard edges has no slope at all. -/
theorem sample_derivative_square_zero (width t : α) (shape : EdgeShape) :
    (square width 0 shape).derivative.sample t = 0 := by
  have hstep : (step (0 : α) shape).derivative = zero := by
    rw [step, derivative, if_pos]
    simp [Primitive.vanishes, nextOrder, maxOrder]
  rw [square, sample_derivative_sub, sample_derivative_delay, sample_derivative_delay, hstep,
    sample_zero, sample_zero, sub_zero]

/-! ### Envelopes -/

/-- A window that is told by the absolute value of the time. -/
theorem vanishesOutside_of_abs {w : Waveform α} {radius : α}
    (h : ∀ t, radius < |t| → w.sample t = 0) : w.VanishesOutside (-radius) radius := by
  intro t ht
  refine h t (lt_abs.mpr ?_)
  rcases ht with ht | ht
  · exact Or.inr (by linarith)
  · exact Or.inl ht

/-- A pulse that is cut off at its width is zero outside of it, with all of its derivatives. -/
theorem cut_vanishes {p : Primitive α} (hp : p = .cosPulse width ∨ p = .gaussian width) (n : Nat) :
    (prim p n).VanishesOutside (-(width / 2)) (width / 2) := by
  refine vanishesOutside_of_abs fun t ht => ?_
  have habs : Scalar.abs t = |t| := ExactScalar.abs_eq t
  have hout : width ≤ 0 ∨ width / 2 < Scalar.abs t := Or.inr (habs ▸ ht)
  rw [sample]
  rcases hp with rfl | rfl
  · rw [Primitive.value, two_eq, if_pos hout]
  · rw [Primitive.value, two_eq, if_pos hout]

/-- **An envelope is zero outside of its width**, and so is its derivative. -/
theorem envelope_vanishes (shape : PulseShape) (hwidth : 0 ≤ width) :
    (envelope shape width).VanishesOutside (-(width / 2)) (width / 2) ∧
      (envelope shape width).derivative.VanishesOutside (-(width / 2)) (width / 2) := by
  have hcut : ∀ p : Primitive α, p = .cosPulse width ∨ p = .gaussian width →
      (prim p 0).VanishesOutside (-(width / 2)) (width / 2) ∧
        (prim p 0).derivative.VanishesOutside (-(width / 2)) (width / 2) := by
    intro p hp
    refine ⟨cut_vanishes hp 0, ?_⟩
    rw [derivative]
    split
    · exact vanishesOutside_zero _ _
    · exact cut_vanishes hp _
  cases shape with
  | cosPulse => exact hcut _ (Or.inl rfl)
  | gaussian => exact hcut _ (Or.inr rfl)
  | square =>
    refine ⟨?_, fun t _ => sample_derivative_square_zero width t .cos⟩
    have hflat := square_vanishes .cos hwidth (le_refl (0 : α))
    rwa [zero_div, add_zero] at hflat

end Waveform

/-! ### Pairs -/

namespace IqPair

/-- **A pair that is zero outside of a window.** -/
structure VanishesOutside (p : IqPair α) (start finish : α) : Prop where
  i : p.i.VanishesOutside start finish
  q : p.q.VanishesOutside start finish

variable {p : IqPair α} {start finish : α}

theorem VanishesOutside.mono (h : p.VanishesOutside start finish) {start' finish' : α}
    (hstart : start' ≤ start) (hfinish : finish ≤ finish') : p.VanishesOutside start' finish' :=
  ⟨h.i.mono hstart hfinish, h.q.mono hstart hfinish⟩

theorem VanishesOutside.delay (h : p.VanishesOutside start finish) (dt : α) :
    (p.delay dt).VanishesOutside (start + dt) (finish + dt) :=
  ⟨h.i.delay dt, h.q.delay dt⟩

/-- A carrier plays nothing where the pair that it carries is zero. -/
theorem VanishesOutside.modulate (h : p.VanishesOutside start finish) (phase frequency : α) :
    (p.modulate phase frequency).VanishesOutside start finish :=
  ⟨(h.i.mul _).sub (h.q.mul _), (h.i.mul _).add (h.q.mul _)⟩

/-- Mixing needs the derivatives to be zero outside of the window as well. -/
theorem VanishesOutside.mix (h : p.VanishesOutside start finish)
    (hi : p.i.derivative.VanishesOutside start finish)
    (hq : p.q.derivative.VanishesOutside start finish) (options : Mixing α) :
    (p.mix options).VanishesOutside start finish := by
  have hdrag : ∀ s, (p.withDrag s).VanishesOutside start finish := fun s =>
    ⟨h.i.add (hq.factor s), h.q.sub (hi.factor s)⟩
  rw [IqPair.mix]
  split
  · split
    · exact h.modulate _ _
    · exact (hdrag _).modulate _ _
  · exact h.modulate _ _

end IqPair

end PulseControl
