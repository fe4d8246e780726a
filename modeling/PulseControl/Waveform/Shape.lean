import PulseControl.Decimal.Style
import PulseControl.Scalar

/-!
# Shapes and their names

The profile of a rising edge and the family of a pulse envelope are chosen by name, in parameters and
in documents. The errors of the pulse algebra stand here too, because the first two of them are about
names.

* `PulseControl.EdgeShape`, `PulseControl.PulseShape` – the shapes, each with its reader `ofName?`;
* `PulseControl.WaveError` – what can be wrong with a name or with a request for samples.
-/

namespace PulseControl

/-- The most samples that one request may produce. -/
def maxSamples : Nat := 67108864

/-- Errors of the pulse algebra. -/
inductive WaveError (α : Type) where
  /-- No edge shape has this name. -/
  | unknownEdgeShape (name : String)
  /-- No pulse shape has this name. -/
  | unknownPulseShape (name : String)
  /-- A sample rate must be finite and positive. -/
  | invalidSampleRate (rate : α)
  /-- A window must be finite and must not end before it starts. -/
  | invalidWindow (start stop : α)
  /-- The window holds more samples than `maxSamples`. -/
  | tooManySamples (requested : α)
  deriving Repr

/-- The wording of an error. -/
def WaveError.message : WaveError Float → String
  | .unknownEdgeShape name =>
    "Unknown edge shape '" ++ name ++ "' (expected 'cos' or 'linear')"
  | .unknownPulseShape name =>
    "Unknown pulse shape '" ++ name ++ "' (expected 'CosPulse', 'Gaussian' or 'square')"
  | .invalidSampleRate rate => "Invalid sample rate " ++ Decimal.NumberStyle.plain.write rate
  | .invalidWindow start stop =>
    "Invalid sampling window [" ++ Decimal.NumberStyle.plain.write start ++ ", " ++
      Decimal.NumberStyle.plain.write stop ++ ")"
  | .tooManySamples requested =>
    "Sampling would produce " ++ Decimal.fixed 0 requested ++ " samples (limit " ++
      toString maxSamples ++ ")"

/-- The profile of a rising edge. -/
inductive EdgeShape where
  /-- Raised cosine, smooth at both ends. -/
  | cos
  /-- Linear ramp. -/
  | linear
  deriving DecidableEq, Repr, Inhabited

namespace EdgeShape

/-- The name of an edge shape. -/
def name : EdgeShape → String
  | .cos => "cos"
  | .linear => "linear"

/-- The edge shape of a name. -/
def ofName? (s : String) : Option EdgeShape :=
  if s = "cos" then some .cos else if s = "linear" then some .linear else none

theorem ofName?_name (s : EdgeShape) : ofName? s.name = some s := by cases s <;> decide

/-- The edge shape of a name, or the error that there is none. -/
def parse {α : Type} (s : String) : Except (WaveError α) EdgeShape :=
  match ofName? s with
  | some shape => .ok shape
  | none => .error (.unknownEdgeShape s)

end EdgeShape

/-- The family of envelopes of a drive pulse. -/
inductive PulseShape where
  /-- Raised cosine over the full width. -/
  | cosPulse
  /-- Gaussian cut off at the width. -/
  | gaussian
  /-- Flat top with hard edges. -/
  | square
  deriving DecidableEq, Repr, Inhabited

namespace PulseShape

/-- The name of a pulse shape in parameters. -/
def name : PulseShape → String
  | .cosPulse => "CosPulse"
  | .gaussian => "Gaussian"
  | .square => "square"

/-- The names that a parameter may choose from. -/
def names : List String := [cosPulse.name, gaussian.name, square.name]

/-- The pulse shape of a name; the flat top has two spellings. -/
def ofName? (s : String) : Option PulseShape :=
  if s = "CosPulse" then some .cosPulse
  else if s = "Gaussian" then some .gaussian
  else if s = "square" ∨ s = "Square" then some .square
  else none

theorem ofName?_name (s : PulseShape) : ofName? s.name = some s := by cases s <;> decide

/-- The pulse shape of a name, or the error that there is none. -/
def parse {α : Type} (s : String) : Except (WaveError α) PulseShape :=
  match ofName? s with
  | some shape => .ok shape
  | none => .error (.unknownPulseShape s)

end PulseShape

end PulseControl
