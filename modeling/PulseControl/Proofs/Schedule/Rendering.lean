import PulseControl.Proofs.StandardGates.Cursors
import PulseControl.Proofs.Waveform.Beginnings
import PulseControl.Proofs.Waveform.Grid

/-!
# What rendering leaves out

A channel is sampled over a window that mixes two things which know nothing of each other: the support
of what the channel plays, and, where the support does not end, the latest cursor. So nothing is left
out at the beginning if the pulses begin, and at the end no more than what a pulse plays behind the
cursors that are set along with it. How much that may be on a channel is called the tail of the channel.

* `PulseControl.Buffers.of_render` – what rendering gives for a channel;
* `PulseControl.Instruction.Ending` – pulses that begin, and end with a cursor but for a tail;
* `PulseControl.Waveform.vanishes_outside_window` – what the window of such a waveform leaves out;
* `PulseControl.Schedule.Recorded.ends` – what a channel of a schedule plays after all cursors.
-/

namespace PulseControl

open Waveform

/-! ### Rendering -/

namespace Buffers

variable {α β : Type} [Scalar α] [ExtendedLine α β] {b : Buffers α} {rate finish : α} {c : Channel}
  {w : Waveform α}

/-- **What rendering gives for a channel**: nothing if its waveform has no support, and otherwise its
samples over the window. -/
theorem of_render {rendered : List (Channel × RenderedChannel α)}
    (h : b.render (β := β) rate finish = .ok rendered) (hw : b[c]? = some w) :
    w.support (β := β) = none ∨ ∃ i samples, w.support (β := β) = some i ∧
      w.sampleRange (window i finish).1 (window i finish).2 rate = .ok samples ∧
      (c, ⟨(window i finish).1, samples⟩) ∈ rendered := by
  obtain ⟨entries, hentries, hrendered⟩ := Except.bind_eq_ok.mp h
  cases hrendered
  obtain ⟨entry, hentry, hone⟩ :=
    Except.exists_of_mem_mapM hentries (Std.ExtTreeMap.mem_toList_iff_getElem?_eq_some.mpr hw)
  obtain ⟨found, hfound, hpair⟩ := Except.bind_eq_ok.mp hone
  cases hpair
  rw [renderChannel] at hfound
  split at hfound
  · next hnone => exact Or.inl hnone
  · next i hi =>
    dsimp only at hfound
    split at hfound
    · next samples hsamples =>
      cases hfound
      exact Or.inr ⟨i, samples, hi, hsamples, List.mem_filterMap.mpr ⟨_, hentry, rfl⟩⟩
    · cases hfound

/-- Rendering succeeds where it succeeds for every channel. -/
theorem exists_render (h : ∀ (c : Channel) (w : Waveform α), b[c]? = some w →
    ∃ found, renderChannel (β := β) rate finish w = .ok found) :
    ∃ rendered, b.render (β := β) rate finish = .ok rendered := by
  cases hrender : b.render (β := β) rate finish with
  | ok rendered => exact ⟨rendered, rfl⟩
  | error e =>
    rcases Except.bind_eq_error.mp hrender with hentries | ⟨_, _, hdone⟩
    · obtain ⟨entry, hentry, hone⟩ := Except.exists_of_mapM_eq_error hentries
      obtain ⟨found, hfound⟩ := h _ _ (Std.ExtTreeMap.mem_toList_iff_getElem?_eq_some.mp hentry)
      rw [hfound] at hone
      cases hone
    · cases hdone

end Buffers

variable {α : Type} [ExactScalar α]

/-- **What the window leaves out**: a waveform that begins, and is zero behind some time but for a tail,
is zero before its window and, but for the tail, behind it. -/
theorem Waveform.vanishes_outside_window {w : Waveform α} {i : Interval (WithBotTop α)}
    (hi : w.support = some i) (hbegins : w.Begins) {finish tail : α} (htail : 0 ≤ tail)
    (hend : ∀ t, finish + tail < t → w.sample t = 0) :
    w.VanishesOutside (Buffers.window i finish).1 ((Buffers.window i finish).2 + tail) := by
  intro t ht
  by_contra hne
  obtain ⟨j, hj, hlower, hupper⟩ := covers_of_sample_ne_zero hne
  obtain rfl : i = j := Option.mem_unique hi hj
  obtain ⟨lower, upper⟩ := i
  rcases ht with ht | ht
  · induction lower using WithBotTop.rec with
    | bot => exact hbegins _ hi rfl
    | coe a => exact ht.not_ge (WithBotTop.coe_le_coe.mp hlower)
    | top => exact absurd (top_le_iff.mp hlower) (WithBotTop.coe_ne_top t)
  · induction upper using WithBotTop.rec with
    | bot => exact absurd (le_bot_iff.mp hupper) (WithBotTop.coe_ne_bot t)
    | coe a =>
      have hle : t ≤ a := WithBotTop.coe_le_coe.mp hupper
      exact ht.not_ge (hle.trans (le_add_of_nonneg_right htail))
    | top => exact hne (hend t (lt_of_le_of_lt (add_le_add_left (le_max_left _ _) tail) ht))

/-! ### Pulses and cursors -/

/-- **Pulses that begin, and end with a cursor but for the tail of their channel**, which is set along
with them. -/
def Instruction.Ending (tail : Channel → α) (is : List (Instruction α)) : Prop :=
  ∀ c w, .addWaveform c w ∈ is → w.Begins ∧
    ∃ q finish, .setTime q finish ∈ is ∧ ∀ t, finish + tail c < t → w.sample t = 0

namespace Instruction.Ending

variable {tail : Channel → α} {is js : List (Instruction α)}

theorem nil : Ending tail [] := fun _ _ h => nomatch h

theorem append (h : Ending tail is) (h' : Ending tail js) : Ending tail (is ++ js) := by
  intro c w hw
  rcases List.mem_append.mp hw with hw | hw
  · obtain ⟨hbegins, q, finish, hset, hend⟩ := h c w hw
    exact ⟨hbegins, q, finish, List.mem_append_left _ hset, hend⟩
  · obtain ⟨hbegins, q, finish, hset, hend⟩ := h' c w hw
    exact ⟨hbegins, q, finish, List.mem_append_right _ hset, hend⟩

/-- Only markers are ever hidden. -/
theorem shown (h : Ending tail is) (o : LoweringOptions) : Ending tail (o.shown is) := by
  intro c w hw
  obtain ⟨hbegins, q, finish, hset, hend⟩ := h c w (LoweringOptions.mem_shown.mp hw).1
  exact ⟨hbegins, q, finish, LoweringOptions.mem_shown.mpr ⟨hset, Or.inr rfl⟩, hend⟩

end Instruction.Ending

/-- Along instructions that move no cursor back, no cursor is in the end before what it was set to. -/
theorem Ledger.le_time_of_mem {l : Ledger α} {is : List (Instruction α)} (h : l.Along Forward is)
    {q : Qubit} {value : α} (hmem : .setTime q value ∈ is) : value ≤ (l.applyAll is).time q := by
  obtain ⟨before, after, rfl⟩ := List.append_of_mem hmem
  have hafter := (along_append.mp h).2.2
  have hmono := monotone_time hafter q (Nat.zero_le after.length)
  simp only [List.take_zero, List.take_length, applyAll_nil, time_apply_setTime, if_true] at hmono
  rwa [applyAll_append, applyAll_cons]

/-- **What a channel plays** is the sum of its pulses. It begins, and behind the latest cursor there is
nothing of it but the tail. -/
theorem Schedule.Recorded.ends {seed : Ledger α} {s : Schedule α} (h : Recorded seed s)
    (hforward : seed.Along Ledger.Forward s.log) {tail : Channel → α}
    (hending : Instruction.Ending tail s.log) {c : Channel} {w : Waveform α} (hw : s.buffers[c]? = some w) :
    w.Begins ∧ ∀ t, s.ledger.endTime + tail c < t → w.sample t = 0 := by
  have hsum : w = (Instruction.pulsesOn c s.log).foldl (· + ·) .zero := by
    have hplays := h.plays c
    rwa [hw, Option.getD_some, accumulated] at hplays
  have hpulse : ∀ v ∈ Instruction.pulsesOn c s.log, .addWaveform c v ∈ s.log :=
    fun v hv => Instruction.mem_pulsesOn.mp hv
  refine ⟨hsum ▸ kept_begins.foldl fun v hv => (hending c v (hpulse v hv)).1, fun t ht => ?_⟩
  rw [hsum, sample_foldl_add (fun v => v) (Instruction.pulsesOn c s.log), sample_zero, zero_add]
  refine List.sum_eq_zero (List.forall_mem_map.mpr fun v hv => ?_)
  obtain ⟨-, q, finish, hset, hend⟩ := hending c v (hpulse v hv)
  have hcursor : finish ≤ s.ledger.endTime := by
    rw [h.ledger]
    exact (Ledger.le_time_of_mem hforward hset).trans (Ledger.time_le_endTime _ q)
  exact hend t (lt_of_le_of_lt (add_le_add_left hcursor (tail c)) ht)

end PulseControl
