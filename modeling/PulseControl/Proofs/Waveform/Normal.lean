import PulseControl.Proofs.ExactScalar
import PulseControl.Proofs.Waveform.Kept

/-!
# Normal waveforms

Each operator folds what is trivial about the expression that it puts together, and looks no deeper than one
constructor into its operands. Nothing trivial is then left anywhere in the result, as long as there was
nothing trivial left in the operands: what an operator takes out of an operand to put it elsewhere, such as
the inner waveform of two factors that cancel or the terms of a sum, was folded when the operand was made.
Exact arithmetic is needed where two numbers other than 0 are multiplied, whose product must not be 0.

* `PulseControl.Waveform.Reduced`, `PulseControl.Waveform.Normal` – nothing trivial is left;
* `PulseControl.Waveform.add_eq_sum`, `PulseControl.Waveform.mul_eq_product` – what the operators give where
  they fold nothing;
* `PulseControl.Waveform.Normal.add` and the like – the operators keep waveforms normal;
* `PulseControl.Waveform.Normal.derivative` – and so does the derivative;
* `PulseControl.Waveform.normal_square`, `PulseControl.Waveform.normal_carrier` and the like – the waveforms
  of a pulse program;
* `PulseControl.IqPair.Normal.mix` – pairs.
-/

namespace PulseControl

namespace Waveform

/-! ### Shapes of expressions -/

section Shapes

variable {α : Type}

/-- Whether a waveform is a constant. -/
def isConst : Waveform α → Bool
  | .const _ => true
  | _ => false

/-- Whether a waveform is delayed as a whole. -/
def isDelayed : Waveform α → Bool
  | .delayed _ _ => true
  | _ => false

/-- Whether a waveform is scaled as a whole. -/
def isScaled : Waveform α → Bool
  | .scaled _ _ => true
  | _ => false

/-- Whether a waveform is a sum of terms. -/
def isSum : Waveform α → Bool
  | .sum _ => true
  | _ => false

/-- The terms of a waveform as a sum; one that is no sum is its only term. -/
def terms : Waveform α → List (Waveform α)
  | .sum ws => ws
  | w => [w]

theorem eq_const_of_isConst {w : Waveform α} (h : w.isConst = true) : ∃ c, w = .const c := by
  cases w with
  | const c => exact ⟨c, rfl⟩
  | zero | prim | delayed | scaled | sum | product => cases h

end Shapes

variable {α : Type} [ExactScalar α]

/-! ### Normal expressions -/

/-- **A normal waveform other than zero.** No part of it is zero. -/
inductive Reduced : Waveform α → Prop where
  /-- A constant is not 0. -/
  | const {c : α} : c ≠ 0 → Reduced (.const c)
  | prim (p : Primitive α) (n : ℕ) : Reduced (.prim p n)
  /-- A delay is not 0, and what it delays is neither a constant nor delayed already. -/
  | delayed {w : Waveform α} {dt : α} : Reduced w → w.isConst = false → w.isDelayed = false → dt ≠ 0 →
    Reduced (.delayed w dt)
  /-- A factor is neither 0 nor 1, and what it scales is neither a constant nor scaled already. -/
  | scaled {k : α} {w : Waveform α} : Reduced w → w.isConst = false → w.isScaled = false → k ≠ 0 →
    k ≠ 1 → Reduced (.scaled k w)
  /-- A sum has at least two terms, and none of them is a sum. -/
  | sum {ws : List (Waveform α)} : 2 ≤ ws.length → (∀ w ∈ ws, Reduced w) → (∀ w ∈ ws, w.isSum = false) →
    Reduced (.sum ws)
  /-- No factor of a product is a constant. -/
  | product {a b : Waveform α} : Reduced a → Reduced b → a.isConst = false → b.isConst = false →
    Reduced (.product a b)

/-- **A normal waveform.** Zero occurs in it only as the whole of it. -/
def Normal (w : Waveform α) : Prop := w = .zero ∨ w.Reduced

variable {v w : Waveform α} {k dt : α}

theorem normal_zero : (zero : Waveform α).Normal := Or.inl rfl

theorem Reduced.normal (h : w.Reduced) : w.Normal := Or.inr h

/-- The terms of a normal sum are normal, and so is a term by itself. -/
theorem Reduced.terms (h : w.Reduced) :
    1 ≤ w.terms.length ∧ ∀ v ∈ w.terms, v.Reduced ∧ v.isSum = false := by
  have hone : w.isSum = false → ∀ v ∈ [w], v.Reduced ∧ v.isSum = false := by
    rintro hsum v hv
    obtain rfl := List.mem_singleton.mp hv
    exact ⟨h, hsum⟩
  cases h with
  | sum hlength hterms hsums =>
    exact ⟨Nat.le_of_succ_le hlength, fun v hv => ⟨hterms v hv, hsums v hv⟩⟩
  | const | prim | delayed | scaled | product => exact ⟨le_rfl, hone rfl⟩

/-! ### The operators -/

/-- A constant is normal, since the constant 0 is zero. -/
theorem normal_constant (c : α) : (constant c).Normal := by
  rw [constant]
  split
  · exact normal_zero
  · next hc => exact (Reduced.const fun h => hc ((ExactScalar.beq_eq_true c 0).mpr h)).normal

/-- **A factor.** Two factors that cancel leave what they scale, and a product of two factors is not 0. -/
theorem Normal.scale (h : w.Normal) (k : α) : (w.scale k).Normal := by
  rw [scale.eq_def]
  split
  · exact normal_zero
  · next hzero =>
    rw [ExactScalar.beq_eq_true] at hzero
    split
    · exact h
    · next hone =>
      rw [ExactScalar.beq_eq_true] at hone
      rcases h with rfl | h
      · exact normal_zero
      · cases h with
        | const => exact normal_constant _
        | @scaled k' inner hinner hconst hscaled hk' =>
          dsimp only
          split
          · exact hinner.normal
          · next hproduct =>
            rw [ExactScalar.beq_eq_true] at hproduct
            exact (hinner.scaled hconst hscaled (mul_ne_zero hzero hk') hproduct).normal
        | prim p n => exact ((Reduced.prim p n).scaled rfl rfl hzero hone).normal
        | delayed hw hconst hdelayed hdt =>
          exact ((hw.delayed hconst hdelayed hdt).scaled rfl rfl hzero hone).normal
        | sum hlength hterms hsums =>
          exact ((Reduced.sum hlength hterms hsums).scaled rfl rfl hzero hone).normal
        | product ha hb hca hcb =>
          exact ((ha.product hb hca hcb).scaled rfl rfl hzero hone).normal

theorem Normal.factor (h : w.Normal) (k : α) : (k * w).Normal := h.scale k

theorem Normal.neg (h : w.Normal) : (-w).Normal := h.scale (-1)

/-- **A delay.** Two delays that cancel leave what they delay. -/
theorem Normal.delay (h : w.Normal) (dt : α) : (w >>> dt).Normal := by
  change (w.delay dt).Normal
  rw [Waveform.delay.eq_def]
  split
  · exact h
  · next hzero =>
    rw [ExactScalar.beq_eq_true] at hzero
    rcases h with rfl | h
    · exact normal_zero
    · cases h with
      | const hc => exact (Reduced.const hc).normal
      | @delayed inner dt' hinner hconst hdelayed _ =>
        dsimp only
        split
        · exact hinner.normal
        · next hsum =>
          rw [ExactScalar.beq_eq_true] at hsum
          exact (hinner.delayed hconst hdelayed hsum).normal
      | prim p n => exact ((Reduced.prim p n).delayed rfl rfl hzero).normal
      | scaled hw hconst hscaled hk hone =>
        exact ((hw.scaled hconst hscaled hk hone).delayed rfl rfl hzero).normal
      | sum hlength hterms hsums =>
        exact ((Reduced.sum hlength hterms hsums).delayed rfl rfl hzero).normal
      | product ha hb hca hcb => exact ((ha.product hb hca hcb).delayed rfl rfl hzero).normal

/-- **Where nothing is folded** two waveforms add up to the sum of their terms. -/
theorem add_eq_sum (hv : v.Reduced) (hw : w.Reduced) (h : v.isConst = false ∨ w.isConst = false) :
    v + w = .sum (v.terms ++ w.terms) := by
  change v.add w = _
  cases hv <;> cases hw <;> first | rfl | simp [isConst] at h

theorem Normal.add (hv : v.Normal) (hw : w.Normal) : (v + w).Normal := by
  rcases hv with rfl | hv
  · exact hw
  rcases hw with rfl | hw
  · have hleft : v + zero = v := by cases hv <;> rfl
    rw [hleft]
    exact hv.normal
  by_cases hconst : v.isConst = false ∨ w.isConst = false
  · obtain ⟨hlength, hterms⟩ := hv.terms
    obtain ⟨hlength', hterms'⟩ := hw.terms
    have hall := List.forall_mem_append.mpr ⟨hterms, hterms'⟩
    rw [add_eq_sum hv hw hconst]
    refine (Reduced.sum ?_ (fun u hu => (hall u hu).1) fun u hu => (hall u hu).2).normal
    rw [List.length_append]
    exact Nat.add_le_add hlength hlength'
  · -- two constants, which may cancel
    cases hv <;> cases hw <;> first | exact normal_constant _ | exact absurd (by simp [isConst]) hconst

theorem Normal.sub (hv : v.Normal) (hw : w.Normal) : (v - w).Normal := hv.add hw.neg

/-- **Where nothing is folded** two waveforms have the product of both. -/
theorem mul_eq_product (hv : v.Reduced) (hw : w.Reduced) (hconst : v.isConst = false)
    (hconst' : w.isConst = false) : v * w = .product v w := by
  change v.mul w = _
  cases hv <;> cases hw <;> first | rfl | simp [isConst] at hconst hconst'

/-- **A product.** A factor that is a constant scales the other one. -/
theorem Normal.mul (hv : v.Normal) (hw : w.Normal) : (v * w).Normal := by
  rcases hv with rfl | hv
  · exact normal_zero
  rcases hw with rfl | hw
  · have hright : v * zero = zero := by cases hv <;> rfl
    rw [hright]
    exact normal_zero
  cases hconst : v.isConst with
  | true =>
    obtain ⟨c, rfl⟩ := eq_const_of_isConst hconst
    have hscales : const c * w = w.scale c := by cases hw <;> rfl
    rw [hscales]
    exact hw.normal.scale c
  | false =>
    cases hconst' : w.isConst with
    | true =>
      obtain ⟨c, rfl⟩ := eq_const_of_isConst hconst'
      have hscales : v * const c = v.scale c := by cases hv <;> first | rfl | simp [isConst] at hconst
      rw [hscales]
      exact hv.normal.scale c
    | false =>
      rw [mul_eq_product hv hw hconst hconst']
      exact (hv.product hw hconst hconst').normal

/-- **The derivative.** It is put together by the same operators, from derivatives and parts. -/
theorem Normal.derivative (h : w.Normal) : w.derivative.Normal := by
  rcases h with rfl | h
  · exact Or.inl (by rw [Waveform.derivative])
  induction h with
  | const => exact Or.inl (by rw [Waveform.derivative])
  | prim p n =>
    rw [Waveform.derivative]
    split
    · exact normal_zero
    · exact (Reduced.prim p _).normal
  | delayed _ _ _ _ ih =>
    rw [Waveform.derivative]
    exact ih.delay _
  | scaled _ _ _ _ _ ih =>
    rw [Waveform.derivative]
    exact ih.scale _
  | sum _ _ _ ih =>
    rw [derivative_sum]
    exact List.foldlRecOn _ _ normal_zero fun _ hacc v hv => hacc.add (ih v hv)
  | product ha hb _ _ iha ihb =>
    rw [Waveform.derivative]
    exact (iha.mul hb.normal).add (ha.normal.mul ihb)

/-! ### The waveforms of a pulse program -/

theorem normal_step (edge : α) (shape : EdgeShape) : (step edge shape).Normal :=
  (Reduced.prim _ _).normal

theorem normal_square (width edge : α) (shape : EdgeShape) : (square width edge shape).Normal :=
  ((normal_step edge shape).delay _).sub ((normal_step edge shape).delay _)

theorem normal_cosPulse (width : α) : (cosPulse width).Normal := (Reduced.prim _ _).normal

theorem normal_gaussian (width : α) : (gaussian width).Normal := (Reduced.prim _ _).normal

theorem normal_carrier (frequency phase : α) : (carrier frequency phase).Normal := by
  rw [carrier]
  split
  · exact normal_constant _
  · exact (Reduced.prim _ _).normal

theorem normal_envelope (shape : PulseShape) (width : α) : (envelope shape width).Normal := by
  cases shape with
  | cosPulse => exact normal_cosPulse width
  | gaussian => exact normal_gaussian width
  | square => exact normal_square width 0 .cos

/-- The operators keep waveforms normal. -/
theorem kept_normal : Kept (Normal (α := α)) where
  zero := normal_zero
  step := normal_step
  envelope := normal_envelope
  add := Normal.add
  sub := Normal.sub
  factor := Normal.factor
  delay := Normal.delay
  derivative := Normal.derivative
  mul_carrier hw frequency phase := hw.mul (normal_carrier frequency phase)

end Waveform

/-! ### Pairs -/

namespace IqPair

variable {α : Type} [ExactScalar α]

/-- **A pair of normal waveforms.** -/
structure Normal (p : IqPair α) : Prop where
  i : p.i.Normal
  q : p.q.Normal

variable {p : IqPair α}

theorem Normal.delay (h : p.Normal) (dt : α) : (p.delay dt).Normal := ⟨h.i.delay dt, h.q.delay dt⟩

theorem Normal.scale (h : p.Normal) (k : α) : (p.scale k).Normal := ⟨h.i.factor k, h.q.factor k⟩

theorem Normal.modulate (h : p.Normal) (phase frequency : α) : (p.modulate phase frequency).Normal :=
  have hturned := Waveform.kept_normal.modulate h.i h.q phase frequency
  ⟨hturned.1, hturned.2⟩

theorem Normal.mix (h : p.Normal) (options : Mixing α) : (p.mix options).Normal :=
  have hmixed := Waveform.kept_normal.mix h.i h.q options
  ⟨hmixed.1, hmixed.2⟩

end IqPair

end PulseControl
