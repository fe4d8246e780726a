import PulseControl.Waveform.Primitive

/-!
# Waveforms

A waveform is an expression for a real function of time. The operators build new expressions and fold
the trivial cases as they go (zero terms, unit factors, nested delays), so that the trees of a pulse
program stay shallow.

* `PulseControl.Waveform` – the expressions, with the induction principle
  `PulseControl.Waveform.inductionOn`;
* `PulseControl.Waveform.scale`, `PulseControl.Waveform.delay` and the operators `+`, `-`, `*` – the
  folding arithmetic; `w >>> dt` is `w` delayed by `dt`;
* `PulseControl.Waveform.square`, `PulseControl.Waveform.envelope`, `PulseControl.Waveform.carrier` –
  the waveforms that gates are made of.
-/

namespace PulseControl

/-- A real function of time, as an expression. -/
inductive Waveform (α : Type) where
  /-- Zero everywhere. -/
  | zero
  /-- The same value everywhere. -/
  | const (value : α)
  /-- A derivative of a primitive; order 0 is the primitive itself. -/
  | prim (kind : Primitive α) (order : Nat)
  /-- A waveform that comes later by a delay. -/
  | delayed (inner : Waveform α) (delay : α)
  /-- A waveform times a factor. -/
  | scaled (factor : α) (inner : Waveform α)
  /-- The sum of some waveforms. -/
  | sum (terms : List (Waveform α))
  /-- The product of two waveforms. -/
  | product (left right : Waveform α)
  deriving Repr

namespace Waveform

variable {α : Type}

instance : Inhabited (Waveform α) := ⟨.zero⟩

/-- **Induction on waveforms**, with one hypothesis for every term of a sum. -/
@[elab_as_elim]
theorem inductionOn {motive : Waveform α → Prop} (w : Waveform α)
    (zero : motive .zero)
    (const : ∀ c, motive (.const c))
    (prim : ∀ p n, motive (.prim p n))
    (delayed : ∀ w dt, motive w → motive (.delayed w dt))
    (scaled : ∀ k w, motive w → motive (.scaled k w))
    (sum : ∀ ws, (∀ w ∈ ws, motive w) → motive (.sum ws))
    (product : ∀ a b, motive a → motive b → motive (.product a b)) : motive w :=
  Waveform.rec (motive_2 := fun ws => ∀ w ∈ ws, motive w)
    zero const prim (fun w dt h => delayed w dt h) (fun k w h => scaled k w h)
    (fun ws h => sum ws h) (fun a b ha hb => product a b ha hb)
    (fun _ h => nomatch h)
    (fun _ _ hw hws v hv => by
      cases hv with
      | head => exact hw
      | tail _ h => exact hws v h)
    w

/-- Whether a waveform is the literal zero. -/
def isZero : Waveform α → Bool
  | .zero => true
  | _ => false

variable [Scalar α]

/-! ### Scaling and delaying -/

/-- A constant waveform; the constant 0 is the zero waveform. -/
def constant (c : α) : Waveform α := if c == 0 then .zero else .const c

/-- A waveform times a factor. Factors on top of each other become one. -/
def scale (w : Waveform α) (k : α) : Waveform α :=
  if k == 0 then .zero
  else if k == 1 then w
  else
    match w with
    | .zero => .zero
    | .const c => constant (c * k)
    | .scaled k' inner => if k * k' == 1 then inner else .scaled (k * k') inner
    | w => .scaled k w

/-- A waveform delayed by `dt`. Delays on top of each other become one. -/
def delay (w : Waveform α) (dt : α) : Waveform α :=
  if dt == 0 then w
  else
    match w with
    | .zero => .zero
    | .const c => .const c
    | .delayed inner dt' => if dt' + dt == 0 then inner else .delayed inner (dt' + dt)
    | w => .delayed w dt

instance : HShiftRight (Waveform α) α (Waveform α) := ⟨delay⟩

/-! ### Arithmetic -/

/-- The sum of two waveforms. Sums are flat, and zero is no term. -/
def add : Waveform α → Waveform α → Waveform α
  | .zero, w => w
  | w, .zero => w
  | .const a, .const b => constant (a + b)
  | .sum as, .sum bs => .sum (as ++ bs)
  | .sum as, w => .sum (as ++ [w])
  | w, .sum bs => .sum (w :: bs)
  | a, b => .sum [a, b]

/-- The negative of a waveform. -/
def neg (w : Waveform α) : Waveform α := w.scale (-1)

/-- The difference of two waveforms. -/
def sub (a b : Waveform α) : Waveform α := a.add b.neg

/-- The product of two waveforms. A constant factor scales the other one. -/
def mul : Waveform α → Waveform α → Waveform α
  | .zero, _ => .zero
  | _, .zero => .zero
  | .const c, w => w.scale c
  | w, .const c => w.scale c
  | a, b => .product a b

instance : Zero (Waveform α) := ⟨.zero⟩
instance : Add (Waveform α) := ⟨add⟩
instance : Neg (Waveform α) := ⟨neg⟩
instance : Sub (Waveform α) := ⟨sub⟩
instance : Mul (Waveform α) := ⟨mul⟩
instance : HMul α (Waveform α) (Waveform α) := ⟨fun k w => w.scale k⟩

/-! ### The waveforms of a pulse program -/

/-- A unit step that rises across an edge centred on zero. -/
def step (edge : α) (shape : EdgeShape) : Waveform α := .prim (.step edge shape) 0

/-- A flat top of the given width between two edges, centred on zero. With its edges centred on the
ends of the width, the pulse extends over width and edge together. -/
def square (width edge : α) (shape : EdgeShape) : Waveform α :=
  let s := step edge shape
  (s >>> (-width / 2.0)) - (s >>> (width / 2.0))

/-- A raised-cosine pulse of the given width, centred on zero. -/
def cosPulse (width : α) : Waveform α := .prim (.cosPulse width) 0

/-- A Gaussian pulse cut off at the given width, centred on zero. -/
def gaussian (width : α) : Waveform α := .prim (.gaussian width) 0

/-- A cosine of the given frequency and phase; at frequency 0 it is a constant. -/
def carrier (frequency phase : α) : Waveform α :=
  if frequency == 0 then constant (Scalar.cos phase)
  else .prim (.carrier (2.0 * Scalar.pi * frequency) phase) 0

/-- The envelope of unit height of a pulse shape, centred on zero. -/
def envelope (shape : PulseShape) (width : α) : Waveform α :=
  match shape with
  | .cosPulse => cosPulse width
  | .gaussian => gaussian width
  | .square => square width 0 .cos

end Waveform

end PulseControl
