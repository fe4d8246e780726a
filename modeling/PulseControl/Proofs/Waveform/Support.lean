import PulseControl.Proofs.Waveform.Bounds
import PulseControl.Proofs.Waveform.Windows

/-!
# The support of a waveform

The support of a waveform is computed beside its values, by a recursion of its own over the same
expression: bounds for each primitive, hulls for sums, common parts for products. It knows nothing of
the values, so that terms that cancel are not noticed, but it misses nothing. That the derivative stays
within the support is a statement about a third recursion, which puts its result together with the
folding operators; so the support of what each operator gives is compared with that of what it was given
first.

* `PulseControl.Waveform.covers_of_sample_ne_zero`, `PulseControl.Waveform.proper_support` – a waveform
  is zero outside of its support, which is a proper interval;
* `PulseControl.Waveform.within_add` and the like – the supports of what the operators give;
* `PulseControl.Waveform.support_is_sound` – these facts and the support of the derivative in one
  statement.
-/

namespace PulseControl

variable {α : Type} [ExactScalar α]

open Bounds

namespace Waveform

/-! ### Primitives -/

/-- What counts as vanishing also does so at the next order. -/
theorem vanishes_nextOrder {p : Primitive α} {n : ℕ} (h : p.vanishes n = true) :
    p.vanishes (nextOrder n) = true := by
  have hnext : nextOrder n ≠ 0 := (Nat.lt_min.mpr ⟨n.succ_pos, by decide⟩).ne'
  have hlarge : 1 < n → 1 < nextOrder n := fun hn => Nat.lt_min.mpr ⟨hn.trans n.lt_succ_self, by decide⟩
  cases p with
  | step edge shape =>
    simp only [Primitive.vanishes, Bool.and_eq_true, Bool.or_eq_true, decide_eq_true_eq] at h ⊢
    exact ⟨hnext, h.2.imp_right fun hflat => ⟨hflat.1, hlarge hflat.2⟩⟩
  | cosPulse width | gaussian width => exact h
  | carrier omega phase =>
    simp only [Primitive.vanishes, Bool.and_eq_true, decide_eq_true_eq] at h ⊢
    exact ⟨hnext, h.2⟩

theorem bounds_step (edge : α) (shape : EdgeShape) (n : ℕ) :
    (Primitive.step edge shape).bounds n =
      if n = 0 then (⟨((-(max edge 0 / 2) : α) : WithBotTop α), ⊤⟩ : Interval (WithBotTop α))
      else ⟨((-(edge / 2) : α) : WithBotTop α), ((edge / 2 : α) : WithBotTop α)⟩ := by
  rw [Primitive.bounds, two_eq, neg_div, neg_div]
  rfl

theorem bounds_cut {p : Primitive α} {width : α} (hp : p = .cosPulse width ∨ p = .gaussian width)
    (n : ℕ) : p.bounds n =
      (⟨((-(width / 2) : α) : WithBotTop α), ((width / 2 : α) : WithBotTop α)⟩ :
        Interval (WithBotTop α)) := by
  rcases hp with rfl | rfl <;> rw [Primitive.bounds, two_eq, neg_div] <;> rfl

/-- An edge that is negative counts as none. -/
theorem step_before_max {edge t : α} (shape : EdgeShape) (ht : t < -(max edge 0 / 2)) :
    (step edge shape).sample t = 0 := by
  rcases le_total edge 0 with hle | hle
  · have hneg : t < 0 := by rwa [max_eq_right hle, zero_div, neg_zero] at ht
    rw [step, sample, Primitive.value, stepValue, if_pos hle, if_neg fun h => hneg.not_ge h.2]
  · rw [max_eq_left hle] at ht
    exact step_before shape hle ht

/-- **A primitive is zero outside of its bounds.** -/
theorem bounds_cover {p : Primitive α} {n : ℕ} {t : α} (h : p.value t n ≠ 0) :
    (p.bounds n).lower ≤ (t : WithBotTop α) ∧ (t : WithBotTop α) ≤ (p.bounds n).upper := by
  have hsample : (prim p n).sample t ≠ 0 := by rwa [sample]
  have hcut : ∀ width, p = .cosPulse width ∨ p = .gaussian width →
      (p.bounds n).lower ≤ (t : WithBotTop α) ∧ (t : WithBotTop α) ≤ (p.bounds n).upper := by
    intro width hp
    rw [bounds_cut hp]
    exact ((cut_vanishes hp n).inside hsample).imp WithBotTop.coe_le_coe.mpr
      WithBotTop.coe_le_coe.mpr
  cases p with
  | step edge shape =>
    rw [bounds_step]
    by_cases hn : n = 0
    · subst hn
      have hlow : -(max edge 0 / 2) ≤ t := not_lt.mp fun hlt => hsample (step_before_max shape hlt)
      exact ⟨WithBotTop.coe_le_coe.mpr hlow, le_top⟩
    · rw [if_neg hn]
      exact ((slopes_vanish edge shape hn).inside hsample).imp WithBotTop.coe_le_coe.mpr
        WithBotTop.coe_le_coe.mpr
  | cosPulse width => exact hcut width (Or.inl rfl)
  | gaussian width => exact hcut width (Or.inr rfl)
  | carrier omega phase => exact ⟨bot_le, le_top⟩

/-- The bounds of a primitive that does not vanish are proper. -/
theorem proper_bounds {p : Primitive α} {n : ℕ} (h : p.vanishes n = false) :
    Proper (some (p.bounds n)) := by
  have hfinite : ∀ {a b : α}, a ≤ b → Proper (some ⟨(a : WithBotTop α), (b : WithBotTop α)⟩) :=
    fun hle => proper_some (WithBotTop.coe_le_coe.mpr hle) fun hbot =>
      absurd hbot (WithBotTop.coe_ne_bot _)
  have hcut : ∀ width, p = .cosPulse width ∨ p = .gaussian width → Proper (some (p.bounds n)) := by
    intro width hp
    have hwidth : 0 < width := by
      rcases hp with rfl | rfl <;> simpa [Primitive.vanishes] using h
    rw [bounds_cut hp]
    exact hfinite (by linarith)
  cases p with
  | step edge shape =>
    rw [bounds_step]
    by_cases hn : n = 0
    · rw [if_pos hn]
      exact proper_some le_top fun _ => rfl
    · have hedge : 0 < edge := by
        by_contra hle
        simp [Primitive.vanishes, hn, not_lt.mp hle] at h
      rw [if_neg hn]
      exact hfinite (by linarith)
  | cosPulse width => exact hcut width (Or.inl rfl)
  | gaussian width => exact hcut width (Or.inr rfl)
  | carrier omega phase => exact proper_everywhere

/-- The next order stays within the bounds. -/
theorem bounds_nextOrder_within (p : Primitive α) (n : ℕ) :
    Within (some (p.bounds (nextOrder n))) (some (p.bounds n)) := by
  have hnext : nextOrder n ≠ 0 := (Nat.lt_min.mpr ⟨n.succ_pos, by decide⟩).ne'
  cases p with
  | step edge shape =>
    rw [bounds_step, bounds_step, if_neg hnext]
    by_cases hn : n = 0
    · have hle : edge ≤ max edge 0 := le_max_left edge 0
      rw [if_pos hn]
      exact some_within_some.mpr ⟨WithBotTop.coe_le_coe.mpr (by linarith), le_top⟩
    · rw [if_neg hn]
      exact Within.refl _
  | cosPulse width | gaussian width | carrier omega phase => exact Within.refl _

/-! ### Expressions -/

theorem support_prim_of_vanishes {p : Primitive α} {n : ℕ} (h : p.vanishes n = true) :
    (prim p n).support = none := by
  rw [support, Primitive.support, if_pos h]

theorem support_prim {p : Primitive α} {n : ℕ} (h : p.vanishes n = false) :
    (prim p n).support = some (p.bounds n) := by
  rw [support, Primitive.support, if_neg (by rw [h]; exact Bool.false_ne_true)]

theorem support_const (c : α) : (const c).support = everywhere := by
  rw [support]
  rfl

theorem support_delayed (w : Waveform α) (dt : α) :
    (delayed w dt).support = Bounds.delay w.support dt := by
  rw [support]
  rfl

theorem support_product (v w : Waveform α) :
    (product v w).support = Bounds.common v.support w.support := by
  rw [support]
  rfl

theorem supportTerms_cons (w : Waveform α) (ws : List (Waveform α)) (acc : Bounds α) :
    supportTerms (w :: ws) acc = supportTerms ws (Bounds.join acc w.support) := by
  cases acc <;> cases hw : w.support <;> simp [supportTerms, hw, Bounds.join]

/-- **The support of a sum** is the least bounds that hold the supports of its terms. -/
theorem support_sum_within {ws : List (Waveform α)} {c : Bounds α} :
    Within (sum ws).support c ↔ ∀ w ∈ ws, Within w.support c := by
  have hterms : ∀ acc : Bounds α,
      Within (supportTerms ws acc) c ↔ Within acc c ∧ ∀ w ∈ ws, Within w.support c := by
    induction ws with
    | nil => simp [supportTerms]
    | cons w ws ih =>
      intro acc
      rw [supportTerms_cons, ih, join_within, List.forall_mem_cons, and_assoc]
  rw [support, hterms, and_iff_right (none_within c)]

/-- **A support is a proper interval.** -/
theorem proper_support (w : Waveform α) : Proper w.support := by
  induction w using Waveform.inductionOn with
  | zero => exact proper_none
  | const c =>
    rw [support_const]
    exact proper_everywhere
  | prim p n =>
    cases hvanishes : p.vanishes n with
    | true =>
      rw [support_prim_of_vanishes hvanishes]
      exact proper_none
    | false =>
      rw [support_prim hvanishes]
      exact proper_bounds hvanishes
  | delayed w dt ih =>
    rw [support_delayed]
    exact ih.delay dt
  | scaled k w ih =>
    rw [support]
    exact ih
  | sum ws ih =>
    have hterms : ∀ acc : Bounds α, Proper acc → Proper (supportTerms ws acc) := by
      induction ws with
      | nil =>
        intro acc hacc
        rwa [supportTerms]
      | cons w ws ihws =>
        obtain ⟨hw, hws⟩ := List.forall_mem_cons.mp ih
        intro acc hacc
        rw [supportTerms_cons]
        exact ihws hws _ (hacc.join hw)
    rw [support]
    exact hterms none proper_none
  | product a b iha ihb =>
    rw [support_product]
    exact iha.common ihb

/-- **A waveform is zero outside of its support.** -/
theorem covers_of_sample_ne_zero {w : Waveform α} {t : α} (h : w.sample t ≠ 0) :
    Covers w.support t := by
  induction w using Waveform.inductionOn generalizing t with
  | zero => exact absurd (sample_zero t) h
  | const c =>
    rw [support_const]
    exact ⟨_, rfl, bot_le, le_top⟩
  | prim p n =>
    rw [sample] at h
    cases hvanishes : p.vanishes n with
    | true => exact absurd (value_of_vanishes hvanishes t) h
    | false =>
      rw [support_prim hvanishes]
      exact ⟨_, rfl, bounds_cover h⟩
  | delayed w dt ih =>
    rw [sample] at h
    rw [support_delayed]
    exact covers_delay.mpr (ih h)
  | scaled k w ih =>
    rw [sample] at h
    rw [support]
    exact ih (right_ne_zero_of_mul h)
  | sum ws ih =>
    rw [sample_terms] at h
    obtain ⟨w, hw, hne⟩ : ∃ w ∈ ws, w.sample t ≠ 0 := by
      by_contra hall
      push Not at hall
      exact h (List.sum_eq_zero (List.forall_mem_map.mpr hall))
    exact (ih w hw hne).mono (support_sum_within.mp (Within.refl _) w hw)
  | product a b iha ihb =>
    rw [sample_product] at h
    rw [support_product]
    exact (iha (left_ne_zero_of_mul h)).common (ihb (right_ne_zero_of_mul h))

/-! ### Operators -/

theorem within_scale (w : Waveform α) (k : α) : Within (w.scale k).support w.support := by
  rw [scale.eq_def]
  split
  · exact none_within _
  · split
    · exact Within.refl _
    · split
      · exact Within.refl _
      · rw [support_const]
        exact within_everywhere _
      · next k' inner =>
        have hscaled : ∀ k : α, (scaled k inner).support = inner.support := fun k => by rw [support]
        rw [hscaled]
        split
        · exact Within.refl _
        · rw [hscaled]
          exact Within.refl _
      · rw [support]
        exact Within.refl _

theorem support_delay (w : Waveform α) (dt : α) :
    (w >>> dt).support = Bounds.delay w.support dt := by
  change (w.delay dt).support = _
  rw [delay.eq_def]
  split
  · next h => rw [(beq_iff _ _).mp h, delay_zero]
  · split
    · rw [support]
      rfl
    · rw [support_const]
      rfl
    · next inner dt' =>
      rw [support_delayed, delay_delay]
      split
      · next h => rw [(beq_iff _ _).mp h, delay_zero]
      · rw [support_delayed]
    · rw [support_delayed]

/-- What holds the supports of two waveforms holds that of their sum. -/
theorem within_add {v w : Waveform α} {c : Bounds α} (hv : Within v.support c)
    (hw : Within w.support c) : Within (v + w).support c := by
  change Within (v.add w).support c
  rw [add.eq_def]
  split
  · exact hw
  · exact hv
  · rw [support_const] at hv
    exact (within_everywhere _).trans hv
  · refine support_sum_within.mpr fun u hu => ?_
    rcases List.mem_append.mp hu with hu | hu
    · exact support_sum_within.mp hv u hu
    · exact support_sum_within.mp hw u hu
  · refine support_sum_within.mpr fun u hu => ?_
    rcases List.mem_append.mp hu with hu | hu
    · exact support_sum_within.mp hv u hu
    · rwa [List.mem_singleton.mp hu]
  · refine support_sum_within.mpr fun u hu => ?_
    rcases List.mem_cons.mp hu with rfl | hu
    · exact hv
    · exact support_sum_within.mp hw u hu
  · refine support_sum_within.mpr fun u hu => ?_
    rcases List.mem_pair.mp hu with rfl | rfl
    · exact hv
    · exact hw

theorem within_sub {v w : Waveform α} {c : Bounds α} (hv : Within v.support c)
    (hw : Within w.support c) : Within (v - w).support c :=
  within_add hv ((within_scale w (-1)).trans hw)

/-- A product is nowhere but where both of its factors are, also where one of them is folded away. -/
theorem within_mul (v w : Waveform α) : Within (v * w).support (Bounds.common v.support w.support) := by
  change Within (v.mul w).support _
  rw [mul.eq_def]
  split
  · exact none_within _
  · exact none_within _
  · rw [support_const]
    exact (within_everywhere _).common (within_scale _ _) (proper_support _)
  · rw [support_const]
    exact (within_scale _ _).common (within_everywhere _) (proper_support _)
  · rw [support_product]
    exact Within.refl _

/-- A sum stays within what all of its summands stay within. -/
theorem within_foldl_derivative {ws : List (Waveform α)} {acc : Waveform α} {c : Bounds α}
    (hacc : Within acc.support c) (hws : ∀ w ∈ ws, Within w.derivative.support c) :
    Within (ws.foldl (fun acc w => acc + w.derivative) acc).support c := by
  induction ws generalizing acc with
  | nil => exact hacc
  | cons w ws ih =>
    obtain ⟨hw, hws⟩ := List.forall_mem_cons.mp hws
    rw [List.foldl_cons]
    exact ih (within_add hacc hw) hws

/-- **The derivative stays within the support.** -/
theorem within_derivative (w : Waveform α) : Within w.derivative.support w.support := by
  induction w using Waveform.inductionOn with
  | zero => exact none_within _
  | const c => exact none_within _
  | prim p n =>
    rw [derivative]
    split
    · exact none_within _
    · next hnext =>
      have hnext : p.vanishes (nextOrder n) = false := Bool.not_eq_true _ ▸ hnext
      have hn : p.vanishes n = false := by
        by_contra h
        exact Bool.false_ne_true (hnext.symm.trans (vanishes_nextOrder (Bool.not_eq_false _ ▸ h)))
      rw [support_prim hnext, support_prim hn]
      exact bounds_nextOrder_within p n
  | delayed w dt ih =>
    have hdelay : (w.derivative.delay dt).support = Bounds.delay w.derivative.support dt :=
      support_delay w.derivative dt
    rw [derivative, hdelay, support_delayed]
    exact ih.delay dt
  | scaled k w ih =>
    have hscaled : (scaled k w).support = w.support := by rw [support]
    rw [derivative, hscaled]
    exact (within_scale _ _).trans ih
  | sum ws ih =>
    have hterms : ∀ w ∈ ws, Within w.support (sum ws).support :=
      support_sum_within.mp (Within.refl _)
    rw [derivative_sum]
    exact within_foldl_derivative (none_within _) fun w hw => (ih w hw).trans (hterms w hw)
  | product a b iha ihb =>
    rw [derivative, support_product]
    refine within_add ?_ ?_
    · refine (within_mul _ _).trans (Within.common ?_ (common_within_right _ _) ?_)
      · exact (common_within_left _ _).trans iha
      · exact (proper_support _).common (proper_support _)
    · refine (within_mul _ _).trans (Within.common (common_within_left _ _) ?_ ?_)
      · exact (common_within_right _ _).trans ihb
      · exact (proper_support _).common (proper_support _)

/-! ### All together -/

/-- **The support is sound and shrinks under differentiation.** A waveform without a support is zero
everywhere. A waveform with one is zero before and after it; the support is not empty, and one without a
beginning is without an end. The symbolic derivative has no support, or one within that of the waveform.
-/
theorem support_is_sound (w : Waveform α) :
    (w.support = none → ∀ t, w.sample t = 0) ∧
    (∀ i, w.support = some i →
      i.lower ≤ i.upper ∧ (i.lower = ⊥ → i.upper = ⊤) ∧
      ∀ t : α, (t : WithBotTop α) < i.lower ∨ i.upper < (t : WithBotTop α) → w.sample t = 0) ∧
    ∀ j, w.derivative.support = some j →
      ∃ i, w.support = some i ∧ i.lower ≤ j.lower ∧ j.upper ≤ i.upper := by
  refine ⟨fun hnone t => ?_, fun i hi => ⟨?_, ?_, fun t ht => ?_⟩, within_derivative w⟩
  · by_contra hne
    obtain ⟨i, hi, -⟩ := covers_of_sample_ne_zero hne
    rw [hnone] at hi
    exact nomatch hi
  · exact (proper_support w).ordered i hi
  · exact (proper_support w).unbounded i hi
  · by_contra hne
    obtain ⟨j, hj, hlower, hupper⟩ := covers_of_sample_ne_zero hne
    obtain rfl : i = j := Option.mem_unique hi hj
    rcases ht with ht | ht
    · exact ht.not_ge hlower
    · exact ht.not_ge hupper

/-- A flat top is zero before its first edge begins. Its support does not end, since its two steps only
cancel after the second edge. -/
theorem flat_top_support :
    (square (4 : ℚ) 2 .linear).support = some ⟨((-3 : ℚ) : WithBotTop ℚ), ⊤⟩ ∧
      (square (4 : ℚ) 2 .linear).sample (-4) = 0 := by
  have hsupport : (square (4 : ℚ) 2 .linear).support = some ⟨((-3 : ℚ) : WithBotTop ℚ), ⊤⟩ := by
    decide +kernel
  have hearly : ((-4 : ℚ) : WithBotTop ℚ) < ((-3 : ℚ) : WithBotTop ℚ) :=
    WithBotTop.coe_lt_coe.mpr (by norm_num)
  exact ⟨hsupport, ((support_is_sound _).2.1 _ hsupport).2.2 (-4) (Or.inl hearly)⟩

end Waveform

end PulseControl
