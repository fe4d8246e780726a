import Mathlib
import PulseControl.Proofs.RealScalar
import PulseControl.Proofs.Waveform.Windows

/-!
# The symbolic derivative

The derivative of a waveform is written down, not computed: it is an expression that the folding
operators put together from the derivatives of the parts, and a primitive goes to its next order, which
is dropped where it is known to vanish. Here that expression is compared with the derivative of
analysis. Everything rests on the primitives: a waveform asks each of its primitives for a value at a
local time, and where these values have the next orders as their derivatives, the waveform has its
symbolic derivative as derivative.

* `PulseControl.Waveform.Occurs` – which derivative of which primitive a waveform asks for, and when;
* `PulseControl.Waveform.hasDerivAt_sample` – the symbolic derivative is the derivative.
-/

namespace PulseControl

namespace Waveform

/-- **What a waveform asks of its primitives**: in order to be sampled at time `t`, the waveform needs
the derivative of order `n` of the primitive `p` at the local time `τ`. -/
inductive Occurs {α : Type} [Scalar α] : Waveform α → α → Primitive α → ℕ → α → Prop
  /-- A primitive is asked for at the time itself. -/
  | prim (p : Primitive α) (n : ℕ) (t : α) : Occurs (.prim p n) t p n t
  /-- The time within a delayed waveform is earlier. -/
  | delayed {w : Waveform α} {dt t : α} {p : Primitive α} {n : ℕ} {τ : α} :
      Occurs w (t - dt) p n τ → Occurs (.delayed w dt) t p n τ
  /-- A factor leaves the time as it is. -/
  | scaled {k : α} {w : Waveform α} {t : α} {p : Primitive α} {n : ℕ} {τ : α} :
      Occurs w t p n τ → Occurs (.scaled k w) t p n τ
  /-- Every term of a sum is sampled. -/
  | sum {ws : List (Waveform α)} {w : Waveform α} {t : α} {p : Primitive α} {n : ℕ} {τ : α} :
      w ∈ ws → Occurs w t p n τ → Occurs (.sum ws) t p n τ
  /-- The left factor of a product is sampled. -/
  | left {a b : Waveform α} {t : α} {p : Primitive α} {n : ℕ} {τ : α} :
      Occurs a t p n τ → Occurs (.product a b) t p n τ
  /-- The right factor of a product counts as sampled, also where the left one is 0. -/
  | right {a b : Waveform α} {t : α} {p : Primitive α} {n : ℕ} {τ : α} :
      Occurs b t p n τ → Occurs (.product a b) t p n τ

/-- Terms that have derivatives have the sum of these as the derivative of their sum. -/
theorem hasDerivAt_terms {ws : List (Waveform ℝ)} {t : ℝ}
    (h : ∀ w ∈ ws, HasDerivAt w.sample (w.derivative.sample t) t) :
    HasDerivAt (fun s => (ws.map fun w => w.sample s).sum)
      (ws.map fun w => w.derivative.sample t).sum t := by
  induction ws with
  | nil => exact hasDerivAt_const t 0
  | cons w ws ih =>
    obtain ⟨hw, hws⟩ := List.forall_mem_cons.mp h
    simp only [List.map_cons, List.sum_cons]
    exact hw.add (ih hws)

/-- **The symbolic derivative is the derivative.** Where every primitive that a waveform asks for has
order at most 254 and, at its own local time, its next order as derivative, there the waveform as a
function of time has the value of its symbolic derivative as derivative. -/
theorem hasDerivAt_sample (w : Waveform ℝ) (t : ℝ)
    (horder : ∀ p n τ, w.Occurs t p n τ → n ≤ 254)
    (hprim : ∀ p n τ, w.Occurs t p n τ →
      HasDerivAt (fun s => p.value s n) (p.value τ (n + 1)) τ) :
    HasDerivAt w.sample (w.derivative.sample t) t := by
  induction w using Waveform.inductionOn generalizing t with
  | zero =>
    have hsample : (zero : Waveform ℝ).sample = fun _ => 0 := funext sample_zero
    rw [derivative, sample_zero, hsample]
    exact hasDerivAt_const t 0
  | const c =>
    have hsample : (const c).sample = fun _ => c := funext fun s => by rw [sample]
    rw [derivative, sample_zero, hsample]
    exact hasDerivAt_const t c
  | prim p n =>
    have hsample : (prim p n).sample = fun s => p.value s n := funext fun s => by rw [sample]
    have hn : n ≤ 254 := horder p n t (.prim p n t)
    have hnext : nextOrder n = n + 1 := Nat.min_eq_left (Nat.succ_le_succ hn)
    rw [sample_derivative_prim, hnext, hsample]
    exact hprim p n t (.prim p n t)
  | delayed w dt ih =>
    have hsample : (delayed w dt).sample = fun s => w.sample (s - dt) :=
      funext fun s => by rw [sample]
    have hderivative : (delayed w dt).derivative.sample t = w.derivative.sample (t - dt) := by
      rw [derivative]
      exact sample_delay w.derivative dt t
    rw [hderivative, hsample]
    have hw := ih (t - dt) (fun p n τ h => horder p n τ h.delayed)
      fun p n τ h => hprim p n τ h.delayed
    exact hw.comp_sub_const t dt
  | scaled k w ih =>
    have hsample : (scaled k w).sample = fun s => k * w.sample s := funext fun s => by rw [sample]
    rw [derivative, sample_scale, hsample]
    have hw := ih t (fun p n τ h => horder p n τ h.scaled) fun p n τ h => hprim p n τ h.scaled
    exact hw.const_mul k
  | sum ws ih =>
    rw [sample_derivative_terms, funext (sample_terms ws)]
    exact hasDerivAt_terms fun w hw => ih w hw t (fun p n τ h => horder p n τ (h.sum hw))
      fun p n τ h => hprim p n τ (h.sum hw)
  | product a b iha ihb =>
    rw [derivative, sample_add, sample_mul, sample_mul, funext (sample_product a b)]
    have ha := iha t (fun p n τ h => horder p n τ h.left) fun p n τ h => hprim p n τ h.left
    have hb := ihb t (fun p n τ h => horder p n τ h.right) fun p n τ h => hprim p n τ h.right
    exact ha.mul hb

/-! ### Primitives with derivatives -/

/-- One more derivative turns a cosine by one more quarter. -/
theorem quarterTurns_succ (n : ℕ) :
    (quarterTurns (n + 1) : ℝ) = quarterTurns n + Real.pi / 2 := by
  rw [quarterTurns, quarterTurns, Scalar.ofNat_eq, Scalar.ofNat_eq, two_eq, scalar_pi_real,
    Nat.cast_succ]
  ring

/-- A carrier has its next order as derivative, at every order and every time. -/
theorem hasDerivAt_carrier (omega phase : ℝ) (n : ℕ) (t : ℝ) :
    HasDerivAt (fun s => (Primitive.carrier omega phase).value s n)
      ((Primitive.carrier omega phase).value t (n + 1)) t := by
  have hangle : HasDerivAt (fun s => omega * s + phase + quarterTurns n) omega t := by
    simpa using ((hasDerivAt_id t).const_mul omega).add_const phase |>.add_const (quarterTurns n)
  have hcos := hangle.cos.const_mul (omega ^ n)
  simp only [Primitive.value, scalar_cos_real, Scalar.power_eq]
  refine hcos.congr_deriv ?_
  rw [quarterTurns_succ, ← add_assoc, Real.cos_add_pi_div_two]
  ring

/-- A linear step has its slope as derivative inside its edge. -/
theorem hasDerivAt_ramp {edge t : ℝ} (hlow : -(edge / 2) < t) (hhigh : t < edge / 2) :
    HasDerivAt (fun s => (Primitive.step edge .linear).value s 0)
      ((Primitive.step edge .linear).value t 1) t := by
  have hedge : 0 < edge := by linarith
  have hlocal : ∀ s, -(edge / 2) < s → s < edge / 2 →
      0 < (s + edge / 2) / edge ∧ (s + edge / 2) / edge < 1 := by
    intro s hs hs'
    exact ⟨div_pos (by linarith) hedge, (div_lt_one hedge).mpr (by linarith)⟩
  have hslope : (Primitive.step edge .linear).value t 1 = 1 / edge := by
    obtain ⟨hpos, hlt⟩ := hlocal t hlow hhigh
    simp [Primitive.value, stepValue, two_eq, hedge.not_ge, hpos.le, hlt.le]
  have hinside : ∀ s ∈ Set.Ioo (-(edge / 2)) (edge / 2),
      (Primitive.step edge .linear).value s 0 = (s + edge / 2) / edge := by
    intro s hs
    obtain ⟨hpos, hlt⟩ := hlocal s hs.1 hs.2
    simp [Primitive.value, stepValue, two_eq, hedge.not_ge, hpos.not_ge, hlt.not_ge]
  have hramp : HasDerivAt (fun s => (s + edge / 2) / edge) (1 / edge) t :=
    ((hasDerivAt_id t).add_const (edge / 2)).div_const edge
  rw [hslope]
  exact hramp.congr_of_eventuallyEq (Filter.eventuallyEq_of_mem (Ioo_mem_nhds hlow hhigh) hinside)

/-- A carrier that is switched on by a linear ramp, in the middle of the ramp. -/
theorem hasDerivAt_ramped_carrier :
    HasDerivAt (product (delayed (prim (.step 2 .linear) 0) 1) (prim (.carrier 3 0) 0)).sample
      ((product (delayed (prim (.step 2 .linear) 0) 1) (prim (.carrier 3 0) 0)).derivative.sample 1)
      (1 : ℝ) := by
  refine hasDerivAt_sample _ 1 (fun p n τ h => ?_) fun p n τ h => ?_
  · rcases h with _ | _ | _ | _ | ⟨_ | ⟨⟨⟩⟩⟩ | ⟨⟨⟩⟩
    · exact Nat.zero_le 254
    · exact Nat.zero_le 254
  · rcases h with _ | _ | _ | _ | ⟨_ | ⟨⟨⟩⟩⟩ | ⟨⟨⟩⟩
    · exact hasDerivAt_ramp (by norm_num) (by norm_num)
    · exact hasDerivAt_carrier 3 0 0 1

end Waveform

end PulseControl
