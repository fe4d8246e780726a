import PulseControl.Waveform.Basic

/-!
# What a waveform means

A waveform stands for a function of time, and three functions read it off the expression: its value at
a time, its derivative, which is an expression again, and an interval outside of which it is zero.

* `PulseControl.Waveform.sample` – the value at a time;
* `PulseControl.Waveform.derivative` – the symbolic time derivative;
* `PulseControl.Waveform.support` – conservative bounds, in which no cancellation is noticed.
-/

namespace PulseControl

/-- The highest order of derivative that a waveform keeps apart. -/
def maxOrder : Nat := 255

/-- The next order of derivative. -/
def nextOrder (n : Nat) : Nat := min (n + 1) maxOrder

/-- The smallest interval that holds two intervals. -/
def Interval.hull {α β : Type} [ExtendedLine α β] (i j : Interval β) : Interval β :=
  ⟨ExtendedLine.min α i.lower j.lower, ExtendedLine.max α i.upper j.upper⟩

/-- The common part of two intervals, if there is one. -/
def Interval.meet {α β : Type} [ExtendedLine α β] (i j : Interval β) : Option (Interval β) :=
  let lower := ExtendedLine.max α i.lower j.lower
  let upper := ExtendedLine.min α i.upper j.upper
  if ExtendedLine.le α lower upper then some ⟨lower, upper⟩ else none

namespace Waveform

variable {α : Type} [Scalar α]

mutual

/-- The value at time `t`. The right factor of a product does not count where the left one is 0. -/
def sample : Waveform α → α → α
  | .zero, _ => 0
  | .const c, _ => c
  | .prim p n, t => p.value t n
  | .delayed w dt, t => w.sample (t - dt)
  | .scaled k w, t => k * w.sample t
  | .sum ws, t => sampleTerms ws t 0
  | .product a b, t =>
    let left := a.sample t
    if left == 0 then 0 else left * b.sample t

/-- The values of the terms at time `t`, added from the left onto `acc`. -/
def sampleTerms : List (Waveform α) → α → α → α
  | [], _, acc => acc
  | w :: ws, t, acc => sampleTerms ws t (acc + w.sample t)

end

section Support

variable {β : Type} [ExtendedLine α β]

mutual

/-- Bounds outside of which the waveform is zero; nothing if it is zero everywhere. -/
def support : Waveform α → Option (Interval β)
  | .zero => none
  | .const _ => some ⟨ExtendedLine.bottom α, ExtendedLine.top α⟩
  | .prim p n => p.support n
  | .delayed w dt =>
    w.support.map fun i => ⟨ExtendedLine.delay i.lower dt, ExtendedLine.delay i.upper dt⟩
  | .scaled _ w => w.support
  | .sum ws => supportTerms ws none
  | .product a b => a.support.bind fun i => b.support.bind fun j => i.meet (α := α) j

/-- The hull of `acc` and the bounds of the terms, taken from the left. -/
def supportTerms : List (Waveform α) → Option (Interval β) → Option (Interval β)
  | [], acc => acc
  | w :: ws, acc =>
    supportTerms ws <|
      match acc, w.support with
      | none, j => j
      | i, none => i
      | some i, some j => some (i.hull (α := α) j)

end

end Support

mutual

/-- The symbolic time derivative. -/
def derivative : Waveform α → Waveform α
  | .zero => .zero
  | .const _ => .zero
  | .prim p n => if p.vanishes (nextOrder n) then .zero else .prim p (nextOrder n)
  | .delayed w dt => w.derivative.delay dt
  | .scaled k w => w.derivative.scale k
  | .sum ws => derivativeTerms ws .zero
  | .product a b => a.derivative * b + a * b.derivative

/-- The derivatives of the terms, added from the left onto `acc`. -/
def derivativeTerms : List (Waveform α) → Waveform α → Waveform α
  | [], acc => acc
  | w :: ws, acc => derivativeTerms ws (acc + w.derivative)

end

/-! ### Sums as folds -/

theorem sampleTerms_eq_foldl (ws : List (Waveform α)) (t acc : α) :
    sampleTerms ws t acc = ws.foldl (fun acc w => acc + w.sample t) acc := by
  induction ws generalizing acc with
  | nil => rw [sampleTerms, List.foldl_nil]
  | cons w ws ih => rw [sampleTerms, ih, List.foldl_cons]

/-- A sum samples to the sum of the samples of its terms, added from the left. -/
theorem sample_sum (ws : List (Waveform α)) (t : α) :
    (Waveform.sum ws).sample t = ws.foldl (fun acc w => acc + w.sample t) 0 := by
  rw [sample, sampleTerms_eq_foldl]

theorem derivativeTerms_eq_foldl (ws : List (Waveform α)) (acc : Waveform α) :
    derivativeTerms ws acc = ws.foldl (fun acc w => acc + w.derivative) acc := by
  induction ws generalizing acc with
  | nil => rw [derivativeTerms, List.foldl_nil]
  | cons w ws ih => rw [derivativeTerms, ih, List.foldl_cons]

/-- The derivative of a sum adds up the derivatives of its terms. -/
theorem derivative_sum (ws : List (Waveform α)) :
    (Waveform.sum ws).derivative = ws.foldl (fun acc w => acc + w.derivative) .zero := by
  rw [derivative, derivativeTerms_eq_foldl]

end Waveform

end PulseControl
