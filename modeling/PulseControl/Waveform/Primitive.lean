import PulseControl.Waveform.Shape

/-!
# Primitives

A pulse is built from four functions of time, each with a closed form for its derivatives of every
order.

* `PulseControl.Primitive.value` – the derivative of a given order at a time;
* `PulseControl.Primitive.support` – the interval outside of which that derivative vanishes;
* `PulseControl.hermite` – the polynomials in the derivatives of the Gaussian.
-/

namespace PulseControl

/-- The functions of time that waveforms are built from. -/
inductive Primitive (α : Type) where
  /-- Rises from 0 to 1 within half an edge on both sides of zero. An edge that is not positive is a
  jump, whose derivatives count as zero everywhere. -/
  | step (edge : α) (shape : EdgeShape)
  /-- A raised cosine of the given full width, centred on zero. -/
  | cosPulse (width : α)
  /-- A Gaussian with a quarter of the width as deviation, cut off at the width. -/
  | gaussian (width : α)
  /-- An endless cosine. -/
  | carrier (omega phase : α)
  deriving Repr

/-- A closed interval between two ends of the extended line. -/
structure Interval (β : Type) where
  lower : β
  upper : β
  deriving DecidableEq, Repr

section Values

variable {α : Type} [Scalar α]

/-- Two consecutive Hermite polynomials at `x`, by `He (n + 2) = x * He (n + 1) - (n + 1) * He n`. -/
def hermitePair (x : α) : Nat → α × α
  | 0 => (1, x)
  | n + 1 =>
    let (previous, current) := hermitePair x n
    (current, x * current - Scalar.ofNat (n + 1) * previous)

/-- The Hermite polynomial of degree `n` (with leading coefficient 1) at `x`. -/
def hermite (n : Nat) (x : α) : α := (hermitePair x n).1

/-- The quarter turns that `n` derivatives add to the phase of a cosine. -/
def quarterTurns (n : Nat) : α := Scalar.ofNat n * Scalar.pi / 2.0

/-- The `n`-th derivative of a step at `t`. -/
def stepValue (edge : α) (shape : EdgeShape) (t : α) (n : Nat) : α :=
  if edge ≤ 0 then
    if n = 0 ∧ 0 ≤ t then 1 else 0
  else
    let x := (t + edge / 2.0) / edge
    if n = 0 then
      if x ≤ 0 then 0
      else if 1 ≤ x then 1
      else
        match shape with
        | .cos => (1 - Scalar.cos (Scalar.pi * x)) / 2.0
        | .linear => x
    else if 0 ≤ x ∧ x ≤ 1 then
      match shape with
      | .cos =>
        -0.5 * Scalar.power (Scalar.pi / edge) n * Scalar.cos (Scalar.pi * x + quarterTurns n)
      | .linear => if n = 1 then 1 / edge else 0
    else 0

namespace Primitive

/-- The `n`-th time derivative at `t`. -/
def value (p : Primitive α) (t : α) (n : Nat) : α :=
  match p with
  | .step edge shape => stepValue edge shape t n
  | .cosPulse width =>
    if width ≤ 0 ∨ width / 2.0 < Scalar.abs t then 0
    else
      let k := 2.0 * Scalar.pi / width
      if n = 0 then (1 + Scalar.cos (k * t)) / 2.0
      else 0.5 * Scalar.power k n * Scalar.cos (k * t + quarterTurns n)
  | .gaussian width =>
    if width ≤ 0 ∨ width / 2.0 < Scalar.abs t then 0
    else
      let sigma := width / 4.0
      let x := t / sigma
      let sign : α := if n % 2 = 0 then 1 else -1
      sign * hermite n x * Scalar.exp (-x * x / 2.0) / Scalar.power sigma n
  | .carrier omega phase =>
    Scalar.power omega n * Scalar.cos (omega * t + phase + quarterTurns n)

/-- Whether the `n`-th derivative is taken to vanish everywhere. -/
def vanishes (p : Primitive α) (n : Nat) : Bool :=
  match p with
  | .step edge shape => n ≠ 0 && (edge ≤ 0 || (shape = .linear && 1 < n))
  | .cosPulse width | .gaussian width => !decide (0 < width)
  | .carrier omega _ => n ≠ 0 && omega == 0

/-- Bounds outside of which the `n`-th derivative vanishes. -/
def bounds {β : Type} [ExtendedLine α β] (p : Primitive α) (n : Nat) : Interval β :=
  match p with
  | .step edge _ =>
    if n = 0 then ⟨ExtendedLine.point (-(Scalar.max edge 0) / 2.0), ExtendedLine.top α⟩
    else ⟨ExtendedLine.point (-edge / 2.0), ExtendedLine.point (edge / 2.0)⟩
  | .cosPulse width | .gaussian width =>
    ⟨ExtendedLine.point (-width / 2.0), ExtendedLine.point (width / 2.0)⟩
  | .carrier _ _ => ⟨ExtendedLine.bottom α, ExtendedLine.top α⟩

/-- The bounds of the `n`-th derivative; nothing if it vanishes everywhere. -/
def support {β : Type} [ExtendedLine α β] (p : Primitive α) (n : Nat) : Option (Interval β) :=
  if p.vanishes n then none else some (p.bounds n)

end Primitive

end Values

end PulseControl
