import PulseControl.Waveform.Calculus

/-!
# Sampling on a grid

An output device takes samples at a fixed rate over a window that includes its start and excludes its
stop. The number of samples is the rounded product of length and rate, and it is checked before any
sample is taken.

* `PulseControl.Waveform.sampleRange` – the samples over a window, or the reason why there are none.
-/

namespace PulseControl.Waveform

variable {α : Type} [Scalar α]

/-- The instant of the `i`-th sample. -/
def instant (start rate : α) (i : Nat) : α := start + Scalar.ofNat i / rate

/-- Samples over `[start, stop)` at `rate` samples per second. -/
def sampleRange (w : Waveform α) (start stop rate : α) : Except (WaveError α) (List α) :=
  if ¬ Scalar.isFinite rate ∨ rate ≤ 0 then .error (.invalidSampleRate rate)
  else if ¬ Scalar.isFinite start ∨ ¬ Scalar.isFinite stop ∨ stop < start then
    .error (.invalidWindow start stop)
  else
    let requested := Scalar.round ((stop - start) * rate)
    if Scalar.ofNat maxSamples < requested then .error (.tooManySamples requested)
    else .ok ((List.range (Scalar.toNat requested)).map fun i => w.sample (instant start rate i))

end PulseControl.Waveform
