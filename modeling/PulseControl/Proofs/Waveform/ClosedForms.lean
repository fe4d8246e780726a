import Mathlib
import PulseControl.Proofs.Waveform.Derivative

/-!
# The closed forms of the primitives

A primitive has a closed form for its derivatives of every order. Nothing in the definition ties these
forms to one another: order 0 is written apart, and each kind of primitive has its own rule for signs,
powers and phases. Here every form is differentiated and compared with the form of the next order.

A primitive is given by cases, so that no single rule of differentiation applies to it. Away from its
boundary, however, it follows one smooth form on a neighbourhood of the time, at all orders at once
(`PulseControl.Primitive.hasDerivAt_of_follows`), and there are only four such forms:

* a level, whose derivatives are zero: outside of an edge or of a pulse;
* a ramp, whose derivative is a level: inside a linear edge;
* a level with a part of a carrier: inside a raised cosine, be it an edge or a pulse;
* a Hermite polynomial times a Gaussian: inside a Gaussian pulse.

The last one rests on the rule `He (n + 1)' = (n + 1) * He n` for the polynomials that the recurrence
computes (`PulseControl.hasDerivAt_hermite_succ`). Main statement:
`PulseControl.Primitive.hasDerivAt_value`.
-/

namespace PulseControl

open Real (pi)

/-! ### Numbers in the closed forms -/

/-- The literal one half of the library is the number one half. -/
theorem half_eq : @OfScientific.ofScientific ℝ Scalar.toOfScientific 5 true 1 = 1 / 2 := by
  rw [ExactScalar.ofScientific_eq]
  norm_num

/-- The literal 4 of the library is the number 4. -/
theorem four_eq : @OfScientific.ofScientific ℝ Scalar.toOfScientific 40 true 1 = 4 := by
  rw [ExactScalar.ofScientific_eq]
  norm_num

theorem quarterTurns_zero : (quarterTurns 0 : ℝ) = 0 := by
  rw [quarterTurns, Scalar.ofNat_eq, Nat.cast_zero, zero_mul, zero_div]

/-- Signs that change from order to order. -/
theorem sign_eq (n : ℕ) : (if n % 2 = 0 then (1 : ℝ) else -1) = (-1) ^ n := by
  rcases Nat.even_or_odd n with hn | hn
  · rw [if_pos (Nat.even_iff.mp hn), hn.neg_one_pow]
  · rw [if_neg (by rw [Nat.odd_iff.mp hn]; decide), hn.neg_one_pow]

/-! ### Hermite polynomials -/

theorem hermite_zero (x : ℝ) : hermite 0 x = 1 := rfl

theorem hermite_one (x : ℝ) : hermite 1 x = x := rfl

/-- The recurrence that computes the polynomials. -/
theorem hermite_add_two (n : ℕ) (x : ℝ) :
    hermite (n + 2) x = x * hermite (n + 1) x - (n + 1) * hermite n x := by
  have hrec : hermite (n + 2) x = x * hermite (n + 1) x - Scalar.ofNat (n + 1) * hermite n x := rfl
  rw [hrec, Scalar.ofNat_eq, Nat.cast_succ]

/-- **The derivative of a Hermite polynomial** is the one before it, times its degree. The recurrence
goes back by two, and so does the induction. -/
theorem hasDerivAt_hermite_succ (n : ℕ) (x : ℝ) :
    HasDerivAt (hermite (n + 1)) ((n + 1) * hermite n x) x := by
  induction n using Nat.twoStepInduction with
  | zero =>
    have hid : hermite 1 = fun y : ℝ => y := funext hermite_one
    rw [zero_add, hid]
    refine (hasDerivAt_id' x).congr_deriv ?_
    rw [hermite_zero]
    norm_num
  | one =>
    have hsquare : hermite 2 = fun y : ℝ => y * y - 1 := by
      funext y
      rw [hermite_add_two 0 y, hermite_one, hermite_zero]
      norm_num
    rw [one_add_one_eq_two, hsquare]
    refine (((hasDerivAt_id' x).mul (hasDerivAt_id' x)).sub_const 1).congr_deriv ?_
    rw [hermite_one]
    norm_num
    ring
  | more n ih ih' =>
    have hrec : hermite (n + 1 + 2) =
        fun y : ℝ => y * hermite (n + 2) y - ((n + 1 : ℕ) + 1) * hermite (n + 1) y :=
      funext (hermite_add_two (n + 1))
    rw [show n + 2 + 1 = n + 1 + 2 from rfl, hrec]
    have hproduct := (hasDerivAt_id' x).mul ih'
    refine (hproduct.sub (ih.const_mul (((n + 1 : ℕ) : ℝ) + 1))).congr_deriv ?_
    rw [hermite_add_two n x]
    push_cast
    ring

namespace Primitive

/-- The derivative of order `n` of the Gaussian with deviation 1. -/
noncomputable def bell (n : ℕ) (x : ℝ) : ℝ := (-1) ^ n * hermite n x * Real.exp (-x * x / 2.0)

theorem hasDerivAt_gauss (x : ℝ) :
    HasDerivAt (fun y => Real.exp (-y * y / 2.0)) (-x * Real.exp (-x * x / 2.0)) x := by
  have hneg : HasDerivAt (fun y : ℝ => -y) (-1) x := (hasDerivAt_id' x).neg
  have hexponent : HasDerivAt (fun y : ℝ => -y * y / 2.0) (-x) x := by
    refine ((hneg.mul (hasDerivAt_id' x)).div_const 2.0).congr_deriv ?_
    rw [Waveform.two_eq]
    ring
  refine hexponent.exp.congr_deriv ?_
  ring

/-- One more derivative of the Gaussian takes the next polynomial, with the other sign. -/
theorem hasDerivAt_bell (n : ℕ) (x : ℝ) : HasDerivAt (bell n) (bell (n + 1) x) x := by
  -- order 0 is apart: the polynomial is constant, and there is none before it
  cases n with
  | zero =>
    have hgauss : bell 0 = fun y => Real.exp (-y * y / 2.0) := by
      funext y
      rw [bell, hermite_zero, pow_zero, one_mul, one_mul]
    rw [hgauss]
    refine (hasDerivAt_gauss x).congr_deriv ?_
    rw [bell, hermite_one]
    ring
  | succ n =>
    have hpolynomial := (hasDerivAt_hermite_succ n x).const_mul ((-1) ^ (n + 1))
    refine (hpolynomial.mul (hasDerivAt_gauss x)).congr_deriv ?_
    rw [bell, hermite_add_two]
    ring

/-! ### Forms of all orders -/

/-- A level, whose derivatives are zero. -/
def level (c : ℝ) (n : ℕ) (_ : ℝ) : ℝ := if n = 0 then c else 0

theorem hasDerivAt_level (c : ℝ) (n : ℕ) (t : ℝ) : HasDerivAt (level c n) (level c (n + 1) t) t :=
  hasDerivAt_const t (if n = 0 then c else 0)

theorem level_zero (n : ℕ) (t : ℝ) : level 0 n t = 0 := ite_self 0

/-- A ramp that starts at the time `-before` and rises to 1 within `edge`; its derivative is a level. -/
noncomputable def ramp (edge before : ℝ) : ℕ → ℝ → ℝ
  | 0, t => (t + before) / edge
  | n + 1, t => level (1 / edge) n t

theorem hasDerivAt_ramp_succ (edge before : ℝ) (n : ℕ) (t : ℝ) :
    HasDerivAt (ramp edge before n) (ramp edge before (n + 1) t) t := by
  cases n with
  | zero => exact ((hasDerivAt_id' t).add_const before).div_const edge
  | succ n => exact hasDerivAt_level (1 / edge) n t

/-- A level and a part of a carrier. -/
noncomputable def raised (c part omega phase : ℝ) (n : ℕ) (t : ℝ) : ℝ :=
  level c n t + part * (Primitive.carrier omega phase).value t n

theorem hasDerivAt_raised (c part omega phase : ℝ) (n : ℕ) (t : ℝ) :
    HasDerivAt (raised c part omega phase n) (raised c part omega phase (n + 1) t) t :=
  (hasDerivAt_level c n t).add
    ((Waveform.hasDerivAt_carrier omega phase n t).const_mul part)

/-- A Gaussian of some deviation, without a cut. -/
noncomputable def stretchedBell (sigma : ℝ) (n : ℕ) (t : ℝ) : ℝ := bell n (t / sigma) / sigma ^ n

theorem hasDerivAt_stretchedBell (sigma : ℝ) (n : ℕ) (t : ℝ) :
    HasDerivAt (stretchedBell sigma n) (stretchedBell sigma (n + 1) t) t := by
  have hstretch : HasDerivAt (fun s => s / sigma) (1 / sigma) t := (hasDerivAt_id' t).div_const sigma
  refine (((hasDerivAt_bell n (t / sigma)).comp t hstretch).div_const (sigma ^ n)).congr_deriv ?_
  rw [stretchedBell, pow_succ, div_mul_eq_div_div]
  ring

/-! ### Times at which a primitive follows a form -/

/-- **The boundary of a primitive**: the ends of its edge or of its width. A step without an edge jumps
at zero, and a carrier has no boundary. -/
inductive Boundary : Primitive ℝ → ℝ → Prop
  | step {edge t : ℝ} {shape : EdgeShape} : |t| = max edge 0 / 2 → Boundary (.step edge shape) t
  | cosPulse {width t : ℝ} : |t| = width / 2 → Boundary (.cosPulse width) t
  | gaussian {width t : ℝ} : |t| = width / 2 → Boundary (.gaussian width) t

/-- **A primitive that follows a form near some time has derivatives as the form has.** -/
theorem hasDerivAt_of_follows {p : Primitive ℝ} {form : ℕ → ℝ → ℝ} {U : Set ℝ} {t : ℝ}
    (hU : IsOpen U) (ht : t ∈ U) (hform : ∀ s ∈ U, ∀ n, p.value s n = form n s) (n : ℕ)
    (hd : HasDerivAt (form n) (form (n + 1) t) t) :
    HasDerivAt (fun s => p.value s n) (p.value t (n + 1)) t := by
  rw [hform t ht (n + 1)]
  have hnear : (fun s => p.value s n) =ᶠ[nhds t] form n :=
    Filter.eventuallyEq_of_mem (hU.mem_nhds ht) fun s hs => hform s hs n
  exact hd.congr_of_eventuallyEq hnear

section Step

variable {edge t : ℝ}

/-- A step without an edge jumps from one level to another. -/
theorem value_jump (shape : EdgeShape) (hedge : edge ≤ 0) (t : ℝ) (n : ℕ) :
    (step edge shape).value t n = if 0 ≤ t then level 1 n t else level 0 n t := by
  rw [value, stepValue, if_pos hedge, level, level_zero]
  by_cases hn : n = 0 <;> simp [hn]

theorem value_before (shape : EdgeShape) (hedge : 0 < edge) (ht : t < -(edge / 2)) (n : ℕ) :
    (step edge shape).value t n = level 0 n t := by
  rw [level_zero]
  cases n with
  | zero =>
    have hzero := Waveform.step_before shape hedge.le ht
    rwa [Waveform.step, Waveform.sample] at hzero
  | succ n =>
    have hzero := Waveform.slopes_vanish edge shape n.succ_ne_zero t (Or.inl ht)
    rwa [Waveform.sample] at hzero

theorem value_after (shape : EdgeShape) (hedge : 0 < edge) (ht : edge / 2 < t) (n : ℕ) :
    (step edge shape).value t n = level 1 n t := by
  cases n with
  | zero =>
    have hone := Waveform.step_after shape hedge.le ht
    rwa [Waveform.step, Waveform.sample] at hone
  | succ n =>
    have hzero := Waveform.slopes_vanish edge shape n.succ_ne_zero t (Or.inr ht)
    rwa [Waveform.sample] at hzero

/-- Inside an edge the local time lies between 0 and 1. -/
theorem localTime_mem (ht : |t| < edge / 2) :
    0 < (t + edge / 2) / edge ∧ (t + edge / 2) / edge < 1 := by
  obtain ⟨hlow, hhigh⟩ := abs_lt.mp ht
  have hedge : 0 < edge := by linarith
  exact ⟨div_pos (by linarith) hedge, (div_lt_one hedge).mpr (by linarith)⟩

theorem value_linear (ht : |t| < edge / 2) (n : ℕ) :
    (step edge .linear).value t n = ramp edge (edge / 2) n t := by
  obtain ⟨hpos, hlt⟩ := localTime_mem ht
  have hedge : 0 < edge := by linarith [abs_nonneg t]
  rw [value, stepValue, Waveform.two_eq, if_neg hedge.not_ge]
  rcases n with _ | n
  · rw [if_pos rfl, if_neg hpos.not_ge, if_neg hlt.not_ge, ramp]
  · rw [if_neg n.succ_ne_zero, if_pos ⟨hpos.le, hlt.le⟩, ramp, level]
    simp

theorem value_cos (ht : |t| < edge / 2) (n : ℕ) :
    (step edge .cos).value t n = raised (1 / 2) (-(1 / 2)) (pi / edge) (pi / 2) n t := by
  obtain ⟨hpos, hlt⟩ := localTime_mem ht
  have hedge : 0 < edge := by linarith [abs_nonneg t]
  have hangle : pi * ((t + edge / 2) / edge) = pi / edge * t + pi / 2 := by
    field_simp
  simp only [value, stepValue, raised, level, Waveform.two_eq, half_eq, scalar_pi_real,
    Scalar.power_eq, hangle, if_neg hedge.not_ge]
  rcases n with _ | n
  · rw [if_pos rfl, if_neg hpos.not_ge, if_neg hlt.not_ge, if_pos rfl, quarterTurns_zero, add_zero,
      pow_zero]
    ring
  · rw [if_neg n.succ_ne_zero, if_pos ⟨hpos.le, hlt.le⟩, if_neg n.succ_ne_zero]
    ring

/-- A step without an edge is level on both sides of its jump. -/
theorem hasDerivAt_jump (shape : EdgeShape) (hedge : edge ≤ 0) (n : ℕ) (ht : t ≠ 0) :
    HasDerivAt (fun s => (step edge shape).value s n) ((step edge shape).value t (n + 1)) t := by
  rcases lt_or_gt_of_ne ht with hneg | hpos
  · refine hasDerivAt_of_follows isOpen_Iio hneg (fun s hs m => ?_) n (hasDerivAt_level 0 n t)
    rw [value_jump shape hedge, if_neg (not_le.mpr hs)]
  · refine hasDerivAt_of_follows isOpen_Ioi hpos (fun s hs m => ?_) n (hasDerivAt_level 1 n t)
    rw [value_jump shape hedge, if_pos (le_of_lt hs)]

/-- A step with an edge is level before and after the edge, and inside it follows its shape. -/
theorem hasDerivAt_edge (shape : EdgeShape) (hedge : 0 < edge) (n : ℕ) (ht : |t| ≠ edge / 2) :
    HasDerivAt (fun s => (step edge shape).value s n) ((step edge shape).value t (n + 1)) t := by
  rcases lt_or_gt_of_ne ht with hin | hout
  · have hopen : IsOpen {s : ℝ | |s| < edge / 2} := isOpen_lt continuous_abs continuous_const
    cases shape with
    | cos =>
      exact hasDerivAt_of_follows hopen hin (fun s hs => value_cos hs) n
        (hasDerivAt_raised _ _ _ _ n t)
    | linear =>
      exact hasDerivAt_of_follows hopen hin (fun s hs => value_linear hs) n
        (hasDerivAt_ramp_succ edge _ n t)
  · rcases lt_abs.mp hout with hafter | hbefore
    · exact hasDerivAt_of_follows isOpen_Ioi hafter (fun s hs => value_after shape hedge hs) n
        (hasDerivAt_level 1 n t)
    · have ht : t < -(edge / 2) := lt_neg.mp hbefore
      exact hasDerivAt_of_follows isOpen_Iio ht (fun s hs => value_before shape hedge hs) n
        (hasDerivAt_level 0 n t)

end Step

section Pulses

variable {width t : ℝ}

theorem value_cut {p : Primitive ℝ} (hp : p = .cosPulse width ∨ p = .gaussian width)
    (ht : width / 2 < |t|) (n : ℕ) : p.value t n = level 0 n t := by
  have hzero := Waveform.cut_vanishes hp n t
  rw [Waveform.sample] at hzero
  rw [level_zero]
  refine hzero ?_
  rcases lt_abs.mp ht with ht | ht
  · exact Or.inr ht
  · exact Or.inl (by linarith)

/-- A time inside of a pulse is not cut off. -/
theorem not_cut (ht : |t| < width / 2) : ¬(width ≤ 0 ∨ width / 2 < Scalar.abs t) := by
  rintro (hwidth | hout)
  · linarith [abs_nonneg t]
  · exact hout.not_gt ht

theorem value_cosPulse (ht : |t| < width / 2) (n : ℕ) :
    (cosPulse width).value t n = raised (1 / 2) (1 / 2) (2 * pi / width) 0 n t := by
  simp only [value, raised, level, Waveform.two_eq, half_eq, scalar_pi_real, Scalar.power_eq,
    if_neg (not_cut ht), add_zero]
  rcases n with _ | n
  · rw [if_pos rfl, if_pos rfl, quarterTurns_zero, add_zero, pow_zero]
    ring
  · rw [if_neg n.succ_ne_zero, if_neg n.succ_ne_zero]
    ring

theorem value_gaussian (ht : |t| < width / 2) (n : ℕ) :
    (gaussian width).value t n = stretchedBell (width / 4) n t := by
  simp only [value, stretchedBell, bell, Waveform.two_eq, four_eq, Scalar.power_eq,
    if_neg (not_cut ht)]
  rw [sign_eq]
  rfl

/-- Inside of its width a pulse has derivatives as its form has, and outside it has none. -/
theorem hasDerivAt_pulse {p : Primitive ℝ} {form : ℕ → ℝ → ℝ}
    (hp : p = .cosPulse width ∨ p = .gaussian width)
    (hform : ∀ s, |s| < width / 2 → ∀ n, p.value s n = form n s)
    (hd : ∀ n, HasDerivAt (form n) (form (n + 1) t) t) (n : ℕ) (ht : |t| ≠ width / 2) :
    HasDerivAt (fun s => p.value s n) (p.value t (n + 1)) t := by
  rcases lt_or_gt_of_ne ht with hin | hout
  · exact hasDerivAt_of_follows (isOpen_lt continuous_abs continuous_const) hin hform n (hd n)
  · exact hasDerivAt_of_follows (isOpen_lt continuous_const continuous_abs) hout
      (fun s hs => value_cut hp hs) n (hasDerivAt_level 0 n t)

end Pulses

/-- **The closed forms are derivatives of one another**: at every time that is not on the boundary of a
primitive, its value of every order has its value of the next order as derivative. -/
theorem hasDerivAt_value (p : Primitive ℝ) (n : ℕ) (t : ℝ) (ht : ¬p.Boundary t) :
    HasDerivAt (fun s => p.value s n) (p.value t (n + 1)) t := by
  cases p with
  | step edge shape =>
    have hne : |t| ≠ max edge 0 / 2 := fun h => ht (.step h)
    -- the two ends of an edge that has no length are the one time of the jump
    rcases le_or_gt edge 0 with hedge | hedge
    · rw [max_eq_right hedge, zero_div, abs_ne_zero] at hne
      exact hasDerivAt_jump shape hedge n hne
    · rw [max_eq_left hedge.le] at hne
      exact hasDerivAt_edge shape hedge n hne
  | cosPulse width =>
    exact hasDerivAt_pulse (Or.inl rfl) (fun s hs => value_cosPulse hs)
      (fun n => hasDerivAt_raised _ _ _ _ n t) n fun h => ht (.cosPulse h)
  | gaussian width =>
    exact hasDerivAt_pulse (Or.inr rfl) (fun s hs => value_gaussian hs)
      (fun n => hasDerivAt_stretchedBell _ n t) n fun h => ht (.gaussian h)
  | carrier omega phase => exact Waveform.hasDerivAt_carrier omega phase n t

/-- The fourth derivative of a Gaussian with deviation 1, one deviation off its middle: the polynomial
`x ^ 4 - 6 * x ^ 2 + 3` has the value -2 there. -/
theorem fourth_derivative_of_gaussian :
    HasDerivAt (fun s => (gaussian 4).value s 3) (-2 * Real.exp (-1 / 2)) (1 : ℝ) := by
  have hinside : |(1 : ℝ)| < 4 / 2 := by norm_num
  have hfourth : (gaussian 4).value (1 : ℝ) 4 = -2 * Real.exp (-1 / 2) := by
    rw [value_gaussian hinside, stretchedBell, bell, Waveform.two_eq]
    norm_num [hermite_add_two, hermite_one, hermite_zero]
  rw [← hfourth]
  refine hasDerivAt_value (gaussian 4) 3 1 ?_
  intro hboundary
  cases hboundary with
  | gaussian h => exact hinside.ne h

end Primitive

end PulseControl
