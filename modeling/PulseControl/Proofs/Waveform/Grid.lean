import Mathlib.Tactic.FieldSimp
import Mathlib.Tactic.Linarith
import PulseControl.Proofs.ExactScalar
import PulseControl.Proofs.Except
import PulseControl.Waveform.Sampling

/-!
# Samples over a window

How many samples a window has is a rounded number, and the window excludes its stop. Rounding up may seem to
place the last sample at the stop or behind it, and rounding down to leave a sample out. Neither happens: the
number goes up by half a sample at most, and the last sample lies one period before the end of the grid. The
number is compared with the most that may be before it is converted, so that nothing is lost there either.

* `PulseControl.Scalar.exists_round` – rounding, a half going up;
* `PulseControl.Waveform.sampleRange_eq_ok` – the requests that succeed, and what they give;
* `PulseControl.Waveform.sampleRange_covers_window` – where the samples lie.
-/

namespace PulseControl

variable {α : Type} [ExactScalar α]

namespace Scalar

/-- **Rounding** a number that is not negative gives the natural number from half below to half above it; of
two such numbers the greater one. -/
theorem exists_round {x : α} (hx : 0 ≤ x) :
    ∃ n : ℕ, round x = n ∧ (n : α) ≤ x + 1 / 2 ∧ x + 1 / 2 < n + 1 := by
  obtain ⟨k, hk, hle, hlt⟩ := ExactScalar.exists_floor (x + 1 / 2)
  have hnonneg : 0 ≤ k := by
    by_contra hneg
    have hsucc : (k : α) + 1 ≤ 0 := by exact_mod_cast Int.add_one_le_iff.mpr (not_le.mp hneg)
    linarith
  obtain ⟨n, rfl⟩ := Int.eq_ofNat_of_zero_le hnonneg
  rw [Int.cast_natCast] at hle hlt hk
  exact ⟨n, (ExactScalar.round_of_nonneg x hx).trans hk, hle, hlt⟩

/-- A natural number that fits into a word is converted as it is. -/
theorem toNat_natCast {n : ℕ} (hn : n < 2 ^ 64) : toNat (n : α) = n := by
  obtain ⟨k, hk, hle, hlt⟩ := ExactScalar.exists_floor (n : α)
  have hword : (n : α) < 2 ^ 64 := by exact_mod_cast hn
  have hwhole : k = n := by
    have hbelow : k ≤ n := by exact_mod_cast hle
    have habove : (n : ℤ) < k + 1 := by exact_mod_cast hlt
    omega
  have hcast := ExactScalar.toNat_eq (n : α) n.cast_nonneg hword
  rw [hk, hwhole, Int.cast_natCast] at hcast
  exact_mod_cast hcast

end Scalar

namespace Waveform

variable {w : Waveform α} {start stop rate : α} {samples : List α}

theorem instant_eq (start rate : α) (i : ℕ) : instant start rate i = start + i / rate := by
  rw [instant, Scalar.ofNat_eq]

/-- **The requests that succeed**: those at a positive rate for a window that does not end before it starts,
if the rounded product of length and rate is not too large. That many samples are given. -/
theorem sampleRange_eq_ok : w.sampleRange start stop rate = .ok samples ↔
    0 < rate ∧ start ≤ stop ∧ ∃ n : ℕ, Scalar.round ((stop - start) * rate) = n ∧ n ≤ maxSamples ∧
      samples = (List.range n).map fun i => w.sample (instant start rate i) := by
  have hfinite : ∀ a : α, Scalar.isFinite a = true := ExactScalar.isFinite_eq
  by_cases hrate : 0 < rate
  · by_cases hle : start ≤ stop
    · obtain ⟨n, hn, -⟩ := Scalar.exists_round (mul_nonneg (sub_nonneg.mpr hle) hrate.le)
      have hlimit : (Scalar.ofNat maxSamples : α) < n ↔ maxSamples < n := by
        rw [Scalar.ofNat_eq, Nat.cast_lt]
      rw [sampleRange, if_neg (by simp [hfinite, hrate]), if_neg (by simp [hfinite, hle])]
      simp only [hn, hlimit, hrate, hle, true_and]
      constructor
      · intro h
        split at h
        · cases h
        · next hfits =>
          have hword : n < 2 ^ 64 := (not_lt.mp hfits).trans_lt (by decide)
          rw [Scalar.toNat_natCast hword] at h
          exact ⟨n, rfl, not_lt.mp hfits, (Except.ok.inj h).symm⟩
      · rintro ⟨m, hm, hfits, rfl⟩
        obtain rfl : n = m := by exact_mod_cast hm
        have hword : n < 2 ^ 64 := hfits.trans_lt (by decide)
        rw [if_neg hfits.not_gt, Scalar.toNat_natCast hword]
    · rw [sampleRange, if_neg (by simp [hfinite, hrate]), if_pos (by simp [not_le.mp hle])]
      simp [hle]
  · rw [sampleRange, if_pos (Or.inr (not_lt.mp hrate))]
    simp [hrate]

/-- Samples are given over every window that is not too long for the rate. -/
theorem exists_sampleRange (w : Waveform α) (hrate : 0 < rate) (hle : start ≤ stop)
    (hfits : (stop - start) * rate + 1 / 2 ≤ maxSamples) :
    ∃ samples, w.sampleRange start stop rate = .ok samples := by
  obtain ⟨n, hn, hbelow, -⟩ := Scalar.exists_round (mul_nonneg (sub_nonneg.mpr hle) hrate.le)
  have hcount : n ≤ maxSamples := by exact_mod_cast hbelow.trans hfits
  exact ⟨_, sampleRange_eq_ok.mpr ⟨hrate, hle, n, hn, hcount, rfl⟩⟩

/-- **Samples cover their window**, in exact arithmetic. A request that succeeds is one at a positive rate
for a window that does not end before it starts. It gives as many samples as the product of length and rate
says, rounded half up; that number is at most `2 ^ 26`, and it is not changed by its conversion. The `i`-th
sample is the value at `i` periods behind the start. Every sample is taken within the window, its start
included and its stop not, and behind the last one there are less than one and a half periods of the window
left; a window without samples is shorter than half a period. -/
theorem sampleRange_covers_window (h : w.sampleRange start stop rate = .ok samples) :
    (0 < rate ∧ start ≤ stop) ∧
    ((samples.length : α) ≤ (stop - start) * rate + 1 / 2 ∧
      (stop - start) * rate + 1 / 2 < samples.length + 1) ∧
    (samples.length : α) = Scalar.round ((stop - start) * rate) ∧ samples.length ≤ 2 ^ 26 ∧
    (∀ i (hi : i < samples.length), samples[i] = w.sample (start + i / rate)) ∧
    (∀ i < samples.length, start ≤ start + i / rate ∧ start + i / rate < stop) ∧
    (∀ last, samples.length = last + 1 → stop - (start + last / rate) < 3 / 2 * (1 / rate)) ∧
    (samples = [] → stop - start < 1 / 2 * (1 / rate)) := by
  obtain ⟨hrate, hle, n, hn, hfits, rfl⟩ := sampleRange_eq_ok.mp h
  obtain ⟨m, hm, hbelow, habove⟩ := Scalar.exists_round (mul_nonneg (sub_nonneg.mpr hle) hrate.le)
  obtain rfl : n = m := by exact_mod_cast hn.symm.trans hm
  simp only [List.length_map, List.length_range, List.getElem_map, List.getElem_range, instant_eq]
  -- lengths are compared with numbers of periods
  have hperiods : ∀ x y : α, x < y * (1 / rate) ↔ x * rate < y := fun x y => by
    rw [mul_one_div, lt_div_iff₀ hrate]
  have hplace : ∀ i : ℕ, (stop - (start + i / rate)) * rate = (stop - start) * rate - i := fun i => by
    field_simp
    ring
  refine ⟨⟨hrate, hle⟩, ⟨hbelow, habove⟩, hn.symm, hfits, fun _ _ => trivial, fun i hi => ⟨?_, ?_⟩,
    ?_, fun hempty => ?_⟩
  · exact le_add_of_nonneg_right (div_nonneg i.cast_nonneg hrate.le)
  · have hcount : (i : α) + 1 ≤ n := by exact_mod_cast hi
    have hahead : 0 < (stop - (start + i / rate)) * rate := by
      rw [hplace]
      linarith
    exact sub_pos.mp (pos_of_mul_pos_left hahead hrate.le)
  · rintro last rfl
    rw [hperiods, hplace]
    push_cast at habove
    linarith
  · obtain rfl : n = 0 := by simpa using hempty
    rw [hperiods]
    rw [Nat.cast_zero] at habove
    linarith

/-- Two and a half periods have three samples: the half goes up, and the last sample is taken half a period
before the stop. -/
theorem sampleRange_half_up : ∃ samples : List ℚ,
    (constant (2 : ℚ)).sampleRange 0 (5 / 2) 1 = .ok samples ∧ samples.length = 3 ∧
      (0 : ℚ) + (2 : ℕ) / 1 < 5 / 2 ∧ 5 / 2 - ((0 : ℚ) + (2 : ℕ) / 1) < 3 / 2 * (1 / 1) := by
  obtain ⟨samples, hsamples⟩ : ∃ samples,
      (constant (2 : ℚ)).sampleRange 0 (5 / 2) 1 = .ok samples :=
    Except.isOk_eq_true.mp (by decide +kernel)
  obtain ⟨-, ⟨hbelow, habove⟩, -, -, -, hwithin, hlast, -⟩ := sampleRange_covers_window hsamples
  have hthree : samples.length = 3 := by
    have hmost : (samples.length : ℚ) < 4 := by linarith
    have hleast : (2 : ℚ) < samples.length := by linarith
    have hmost' : samples.length < 4 := by exact_mod_cast hmost
    have hleast' : 2 < samples.length := by exact_mod_cast hleast
    omega
  exact ⟨samples, hsamples, hthree, (hwithin 2 (by omega)).2, hlast 2 hthree⟩

end Waveform

end PulseControl
