import PulseControl.Proofs.Schedule.Rendering

/-!
# Why rendering fails

Rendering asks for the samples of each channel over its window, and a request for samples can be refused
for the rate, for the window and for the number of samples. The window is never to blame. It is put
together from the support of a waveform and from what stands in for the bounds that the support does not
have, and a support that ends begins as well, so that nothing stands in for a bound in front of an end that
is known. The other two refusals do happen, the first one for all channels at once.

* `PulseControl.Buffers.renderChannel_eq_error` – the refusals of one channel, whose window is in order;
* `PulseControl.Buffers.render_of_badRate` – a rate that is of no use, over any scalars;
* `PulseControl.Buffers.render_eq_error` – the refusals of a rendering over exact scalars;
* `PulseControl.Buffers.rendering_fails_as_documented` – when rendering fails, for what, and what it gives
  if it does not.
-/

namespace PulseControl.Buffers

open Waveform

section AnyScalars

variable {α β : Type} [Scalar α] [ExtendedLine α β] {b : Buffers α} {rate finish : α} {c : Channel}
  {w : Waveform α}

/-- A rate at which no samples can be taken. -/
def BadRate (rate : α) : Prop := ¬ Scalar.isFinite rate = true ∨ rate ≤ 0

/-- A channel plays a waveform that has a support. -/
def Plays (b : Buffers α) (c : Channel) (w : Waveform α) (i : Interval β) : Prop :=
  b[c]? = some w ∧ w.support = some i

/-- The number of samples that the window of a support asks for. -/
def requested (i : Interval β) (rate finish : α) : α :=
  Scalar.round (((window i finish).2 - (window i finish).1) * rate)

/-! ### One channel -/

theorem renderChannel_of_support_none (h : w.support (β := β) = none) :
    renderChannel (β := β) rate finish w = .ok none := by
  rw [renderChannel, h]

theorem renderChannel_of_support {i : Interval β} (h : w.support = some i) :
    renderChannel (β := β) rate finish w =
      match w.sampleRange (window i finish).1 (window i finish).2 rate with
      | .ok samples => .ok (some ⟨(window i finish).1, samples⟩)
      | .error e => .error (.wave e) := by
  unfold renderChannel
  cases hrange : w.sampleRange (window i finish).1 (window i finish).2 rate with
  | ok samples => simp only [h, hrange]
  | error e => simp only [h, hrange]

theorem sampleRange_of_badRate (h : BadRate rate) (start stop : α) :
    w.sampleRange start stop rate = .error (.invalidSampleRate rate) := by
  rw [sampleRange]
  exact if_pos h

theorem renderChannel_of_badRate (h : BadRate rate) {i : Interval β} (hi : w.support = some i) :
    renderChannel (β := β) rate finish w = .error (.wave (.invalidSampleRate rate)) := by
  rw [renderChannel_of_support hi, sampleRange_of_badRate h]

/-! ### All channels -/

/-- Rendering fails with the error of one of the channels. -/
theorem exists_of_render_eq_error {e : GateError α} (h : b.render (β := β) rate finish = .error e) :
    ∃ (c : Channel) (w : Waveform α), b[c]? = some w ∧
      renderChannel (β := β) rate finish w = .error e := by
  rcases Except.bind_eq_error.mp h with hentries | ⟨_, -, hdone⟩
  · obtain ⟨⟨c, w⟩, hentry, hone⟩ := Except.exists_of_mapM_eq_error hentries
    rcases Except.bind_eq_error.mp hone with hone | ⟨_, -, hdone⟩
    · exact ⟨c, w, Std.ExtTreeMap.mem_toList_iff_getElem?_eq_some.mp hentry, hone⟩
    · exact nomatch hdone
  · exact nomatch hdone

/-- Where rendering succeeds it succeeds for each channel. -/
theorem renderChannel_of_render {rendered : List (Channel × RenderedChannel α)}
    (h : b.render (β := β) rate finish = .ok rendered) (hw : b[c]? = some w) :
    ∃ found, renderChannel (β := β) rate finish w = .ok found := by
  rcases of_render h hw with hnone | ⟨i, samples, hi, hsamples, -⟩
  · exact ⟨_, renderChannel_of_support_none hnone⟩
  · rw [renderChannel_of_support hi, hsamples]
    exact ⟨_, rfl⟩

/-- What is rendered is rendered for a channel. -/
theorem renderChannel_of_mem {rendered : List (Channel × RenderedChannel α)}
    (h : b.render (β := β) rate finish = .ok rendered) {r : RenderedChannel α} (hr : (c, r) ∈ rendered) :
    ∃ w : Waveform α, b[c]? = some w ∧ renderChannel (β := β) rate finish w = .ok (some r) := by
  obtain ⟨found, hfound, hrendered⟩ := Except.bind_eq_ok.mp h
  cases hrendered
  obtain ⟨out, hout, hsome⟩ := List.mem_filterMap.mp hr
  obtain ⟨⟨c', w⟩, hentry, hone⟩ := Except.exists_of_mem_result hfound hout
  obtain ⟨one, hchannel, hpair⟩ := Except.bind_eq_ok.mp hone
  cases hpair
  obtain ⟨r', rfl, hsame⟩ := Option.map_eq_some_iff.mp hsome
  cases hsame
  exact ⟨w, Std.ExtTreeMap.mem_toList_iff_getElem?_eq_some.mp hentry, hchannel⟩

/-- **Each channel is rendered once, in order.** -/
theorem sorted_render {rendered : List (Channel × RenderedChannel α)}
    (h : b.render (β := β) rate finish = .ok rendered) :
    (rendered.map Prod.fst).Pairwise fun c d => compare c d = .lt := by
  obtain ⟨found, hfound, hrendered⟩ := Except.bind_eq_ok.mp h
  cases hrendered
  refine List.Pairwise.sublist ?_ (Std.ExtTreeMap.ordered_keys (t := b))
  rw [← Std.ExtTreeMap.map_fst_toList_eq_keys]
  have hall := Except.mapM_eq_ok.mp hfound
  clear hfound h
  generalize b.toList = entries at hall ⊢
  induction hall with
  | nil => exact .slnil
  | cons hone _ ih =>
    obtain ⟨one, -, hpair⟩ := Except.bind_eq_ok.mp hone
    cases hpair
    cases one with
    | none => exact ih.cons _
    | some r => exact ih.cons_cons _

/-- **A rate that is of no use** is refused as soon as one channel has a support. -/
theorem render_of_badRate (h : BadRate rate) (hplays : ∃ c w i, b.Plays (β := β) c w i) :
    b.render (β := β) rate finish = .error (.wave (.invalidSampleRate rate)) := by
  cases hrender : b.render (β := β) rate finish with
  | ok rendered =>
    obtain ⟨c, w, i, hw, hi⟩ := hplays
    obtain ⟨found, hfound⟩ := renderChannel_of_render hrender hw
    rw [renderChannel_of_badRate h hi] at hfound
    exact nomatch hfound
  | error e =>
    obtain ⟨c, w, -, hone⟩ := exists_of_render_eq_error hrender
    cases hi : w.support (β := β) with
    | none => exact nomatch (renderChannel_of_support_none hi).symm.trans hone
    | some i =>
      rw [renderChannel_of_badRate h hi] at hone
      cases hone
      rfl

/-- Where no channel has a support, nothing is asked for and nothing refused. -/
theorem render_of_not_plays (h : ¬ ∃ c w i, b.Plays (β := β) c w i) :
    b.render (β := β) rate finish = .ok [] := by
  have hnone : ∀ {c w}, b[(c : Channel)]? = some w → w.support (β := β) = none := fun {c w} hw => by
    by_contra hsome
    obtain ⟨i, hi⟩ := Option.ne_none_iff_exists'.mp hsome
    exact h ⟨c, w, i, hw, hi⟩
  obtain ⟨rendered, hrender⟩ : ∃ rendered, b.render (β := β) rate finish = .ok rendered :=
    exists_render fun c w hw => ⟨_, renderChannel_of_support_none (hnone hw)⟩
  cases rendered with
  | nil => exact hrender
  | cons entry rest =>
    obtain ⟨w, hw, hfound⟩ := renderChannel_of_mem hrender List.mem_cons_self
    exact nomatch (renderChannel_of_support_none (hnone hw)).symm.trans hfound

end AnyScalars

/-! ### Exact scalars -/

section ExactScalars

variable {α : Type} [ExactScalar α] {b : Buffers α} {rate finish : α} {c : Channel} {w : Waveform α}
  {i : Interval (WithBotTop α)}

/-- **A window does not end before it starts.** Where the support has no beginning it has no end either, so
that what stands in for the beginning is not compared with an end that is known. -/
theorem window_ordered (hi : w.support = some i) (finish : α) :
    (window i finish).1 ≤ (window i finish).2 := by
  have hordered := (proper_support w).ordered i hi
  have hunbounded := (proper_support w).unbounded i hi
  obtain ⟨lower, upper⟩ := i
  induction upper using WithBotTop.rec with
  | bot => exact absurd (hunbounded (le_bot_iff.mp hordered)) (by simp)
  | top => exact le_max_right _ _
  | coe hi =>
    induction lower using WithBotTop.rec with
    | bot => exact absurd (hunbounded rfl) (WithBotTop.coe_ne_top _)
    | coe lo => exact WithBotTop.coe_le_coe.mp hordered
    | top => exact absurd (top_le_iff.mp hordered) (WithBotTop.coe_ne_top _)

/-- Over a window the only refusal that is left is for the number of samples. -/
theorem sampleRange_of_window (hrate : ¬ BadRate rate) (hi : w.support = some i) :
    w.sampleRange (window i finish).1 (window i finish).2 rate =
      if Scalar.ofNat maxSamples < requested i rate finish then
        .error (.tooManySamples (requested i rate finish))
      else .ok ((List.range (Scalar.toNat (requested i rate finish))).map fun k =>
        w.sample (instant (window i finish).1 rate k)) := by
  have hwindow : ¬ (¬ Scalar.isFinite (window i finish).1 = true ∨
      ¬ Scalar.isFinite (window i finish).2 = true ∨ (window i finish).2 < (window i finish).1) := by
    have hfinite : ∀ a : α, Scalar.isFinite a = true := ExactScalar.isFinite_eq
    simp [hfinite, window_ordered hi]
  have hgood : ¬ (¬ Scalar.isFinite rate = true ∨ rate ≤ 0) := hrate
  rw [sampleRange, if_neg hgood, if_neg hwindow]
  rfl

theorem renderChannel_of_too_many (hrate : ¬ BadRate rate) (hi : w.support = some i)
    (hlong : Scalar.ofNat maxSamples < requested i rate finish) :
    renderChannel (β := WithBotTop α) rate finish w =
      .error (.wave (.tooManySamples (requested i rate finish))) := by
  rw [renderChannel_of_support hi, sampleRange_of_window hrate hi, if_pos hlong]

/-- **The refusals of one channel.** -/
theorem renderChannel_eq_error {e : GateError α}
    (h : renderChannel (β := WithBotTop α) rate finish w = .error e) : ∃ i, w.support = some i ∧
      (BadRate rate ∧ e = .wave (.invalidSampleRate rate) ∨
        ¬ BadRate rate ∧ Scalar.ofNat maxSamples < requested i rate finish ∧
          e = .wave (.tooManySamples (requested i rate finish))) := by
  cases hi : w.support (β := WithBotTop α) with
  | none => exact nomatch (renderChannel_of_support_none hi).symm.trans h
  | some i =>
    refine ⟨i, rfl, ?_⟩
    by_cases hrate : BadRate rate
    · exact Or.inl ⟨hrate, (Except.error.inj ((renderChannel_of_badRate hrate hi).symm.trans h)).symm⟩
    · by_cases hlong : Scalar.ofNat maxSamples < requested i rate finish
      · have he := (renderChannel_of_too_many hrate hi hlong).symm.trans h
        exact Or.inr ⟨hrate, hlong, (Except.error.inj he).symm⟩
      · rw [renderChannel_of_support hi, sampleRange_of_window hrate hi, if_neg hlong] at h
        exact nomatch h

/-- What is rendered of a channel are its samples over its window. -/
theorem renderChannel_eq_some {r : RenderedChannel α}
    (h : renderChannel (β := WithBotTop α) rate finish w = .ok (some r)) : ∃ i, w.support = some i ∧
      r.start = (window i finish).1 ∧
      w.sampleRange (window i finish).1 (window i finish).2 rate = .ok r.samples := by
  cases hi : w.support (β := WithBotTop α) with
  | none => exact nomatch (renderChannel_of_support_none hi).symm.trans h
  | some i =>
    rw [renderChannel_of_support hi] at h
    split at h
    · next samples hsamples =>
      cases h
      exact ⟨i, rfl, rfl, hsamples⟩
    · exact nomatch h

/-! ### All channels -/

/-- **The refusals of a rendering** are those of a channel that has a support. -/
theorem render_eq_error {e : GateError α}
    (h : b.render (β := WithBotTop α) rate finish = .error e) : ∃ c w i, b.Plays c w i ∧
      (BadRate rate ∧ e = .wave (.invalidSampleRate rate) ∨
        ¬ BadRate rate ∧ Scalar.ofNat maxSamples < requested i rate finish ∧
          e = .wave (.tooManySamples (requested i rate finish))) := by
  obtain ⟨c, w, hw, hone⟩ := exists_of_render_eq_error h
  obtain ⟨i, hi, hcause⟩ := renderChannel_eq_error hone
  exact ⟨c, w, i, ⟨hw, hi⟩, hcause⟩

/-- At a good rate one channel with too many samples is refused, and all others with it. -/
theorem render_of_too_many {i : Interval (WithBotTop α)} (hrate : ¬ BadRate rate)
    (hplays : b.Plays c w i) (hlong : Scalar.ofNat maxSamples < requested i rate finish) :
    ∃ n, b.render (β := WithBotTop α) rate finish = .error (.wave (.tooManySamples n)) := by
  obtain ⟨hw, hi⟩ := hplays
  cases hrender : b.render (β := WithBotTop α) rate finish with
  | ok rendered =>
    obtain ⟨found, hfound⟩ := renderChannel_of_render hrender hw
    rw [renderChannel_of_too_many hrate hi hlong] at hfound
    cases hfound
  | error e =>
    obtain ⟨c', w', i', -, ⟨hbad, -⟩ | ⟨-, -, rfl⟩⟩ := render_eq_error hrender
    · exact absurd hbad hrate
    · exact ⟨_, rfl⟩

/-- **The channels of a rendering** are those that have a support. -/
theorem exists_rendered_iff {rendered : List (Channel × RenderedChannel α)}
    (h : b.render (β := WithBotTop α) rate finish = .ok rendered) (c : Channel) :
    (∃ r, (c, r) ∈ rendered) ↔ ∃ w i, b.Plays (β := WithBotTop α) c w i := by
  constructor
  · rintro ⟨r, hr⟩
    obtain ⟨w, hw, hfound⟩ := renderChannel_of_mem h hr
    obtain ⟨i, hi, -⟩ := renderChannel_eq_some hfound
    exact ⟨w, i, hw, hi⟩
  · rintro ⟨w, i, hw, hi⟩
    rcases of_render h hw with hnone | ⟨i', samples, -, -, hmem⟩
    · exact nomatch hnone.symm.trans hi
    · exact ⟨_, hmem⟩

end ExactScalars

/-- **Rendering fails as documented**, and for nothing else. Over any scalars, a rate that is not finite and
positive is refused exactly if some channel has a support. Over exact scalars no window is ever refused:
either the rate is bad and some channel has a support, or the rate is good and the window of some channel
asks for more samples than may be, or rendering succeeds. Then it gives each channel that has a support,
once and in order, sampled from the beginning of the support, or from 0, up to its end, or up to the later
one of `finish` and the start. -/
theorem rendering_fails_as_documented :
    (∀ {α β : Type} [Scalar α] [ExtendedLine α β] (b : Buffers α) (rate finish : α), BadRate rate →
      ((∃ c w i, b.Plays (β := β) c w i) →
        b.render (β := β) rate finish = .error (.wave (.invalidSampleRate rate))) ∧
      ((¬ ∃ c w i, b.Plays (β := β) c w i) → b.render (β := β) rate finish = .ok [])) ∧
    ∀ {α : Type} [ExactScalar α] (b : Buffers α) (rate finish : α),
      (∀ start stop, b.render rate finish ≠ .error (.wave (.invalidWindow start stop))) ∧
      ((∃ r, b.render rate finish = .error (.wave (.invalidSampleRate r))) ↔
        BadRate rate ∧ ∃ c w i, b.Plays c w i) ∧
      ((∃ n, b.render rate finish = .error (.wave (.tooManySamples n))) ↔
        ¬ BadRate rate ∧ ∃ c w i, b.Plays c w i ∧
          Scalar.ofNat maxSamples < requested i rate finish) ∧
      (∀ e, b.render rate finish = .error e →
        (∃ r, e = .wave (.invalidSampleRate r)) ∨ ∃ n, e = .wave (.tooManySamples n)) ∧
      ∀ rendered, b.render rate finish = .ok rendered →
        ((rendered.map Prod.fst).Pairwise fun c d => compare c d = .lt) ∧
        (∀ c, (∃ r, (c, r) ∈ rendered) ↔ ∃ w i, b.Plays c w i) ∧
        ∀ c r, (c, r) ∈ rendered → ∃ w i, b.Plays c w i ∧
          r.start = (ExactLine.finite? i.lower).getD 0 ∧
          w.sampleRange r.start ((ExactLine.finite? i.upper).getD (max finish r.start)) rate =
            .ok r.samples := by
  refine ⟨fun b rate finish hrate => ⟨render_of_badRate hrate, render_of_not_plays⟩,
    fun {α} _ b rate finish => ?_⟩
  refine ⟨fun start stop h => ?_, ⟨?_, ?_⟩, ⟨?_, ?_⟩, fun e he => ?_, fun rendered h =>
    ⟨sorted_render h, exists_rendered_iff h, fun c r hr => ?_⟩⟩
  · obtain ⟨c, w, i, -, ⟨-, he⟩ | ⟨-, -, he⟩⟩ := render_eq_error h <;> cases he
  · rintro ⟨r, h⟩
    obtain ⟨c, w, i, hplays, ⟨hrate, -⟩ | ⟨-, -, he⟩⟩ := render_eq_error h
    · exact ⟨hrate, c, w, i, hplays⟩
    · cases he
  · rintro ⟨hrate, hplays⟩
    exact ⟨rate, render_of_badRate hrate hplays⟩
  · rintro ⟨n, h⟩
    obtain ⟨c, w, i, hplays, ⟨-, he⟩ | ⟨hrate, hlong, -⟩⟩ := render_eq_error h
    · cases he
    · exact ⟨hrate, c, w, i, hplays, hlong⟩
  · rintro ⟨hrate, c, w, i, hplays, hlong⟩
    exact render_of_too_many hrate hplays hlong
  · obtain ⟨c, w, i, -, ⟨-, he⟩ | ⟨-, -, he⟩⟩ := render_eq_error he
    · exact Or.inl ⟨_, he⟩
    · exact Or.inr ⟨_, he⟩
  · obtain ⟨w, hw, hfound⟩ := renderChannel_of_mem h hr
    obtain ⟨i, hi, hstart, hsamples⟩ := renderChannel_eq_some hfound
    refine ⟨w, i, ⟨hw, hi⟩, hstart, ?_⟩
    rw [hstart]
    exact hsamples

/-- A pulse on one line, a constant on another one and nothing on a third. -/
def threeLines : Buffers ℚ :=
  (((∅ : Buffers ℚ).insert (.drive "Q0") (cosPulse 4)).insert (.readout "Q0") (.const 1)).insert
    (.flux "Q0") .zero

/-- A negative rate is refused, and so is one at which the pulse has too many samples. At the rate 1 the
pulse is sampled from its beginning and the constant from 0, and nothing is said about the third line. -/
theorem three_lines_rendered :
    threeLines.render (-1) 3 = .error (.wave (.invalidSampleRate (-1))) ∧
    (∃ n, threeLines.render 67108864 3 = .error (.wave (.tooManySamples n))) ∧
    ∃ rendered, threeLines.render 1 3 = .ok rendered ∧
      (∃ r, (.drive "Q0", r) ∈ rendered ∧ r.start = -2) ∧
      (∃ r, (.readout "Q0", r) ∈ rendered ∧ r.start = 0) ∧
      ¬ ∃ r, (.flux "Q0", r) ∈ rendered := by
  have hpulse : threeLines.Plays (.drive "Q0") (cosPulse 4)
      (⟨((-2 : ℚ) : WithBotTop ℚ), ((2 : ℚ) : WithBotTop ℚ)⟩ : Interval (WithBotTop ℚ)) :=
    ⟨by rfl, by decide +kernel⟩
  have hconst : threeLines.Plays (.readout "Q0") (.const 1)
      (⟨⊥, ⊤⟩ : Interval (WithBotTop ℚ)) := ⟨by rfl, by decide +kernel⟩
  have hsilent : threeLines[Channel.flux "Q0"]? = some .zero := by rfl
  have hbad : BadRate (-1 : ℚ) := Or.inr (by decide)
  have hgood : ¬ BadRate (67108864 : ℚ) := not_or.mpr ⟨not_not.mpr rfl, by decide⟩
  have hlong : Scalar.ofNat maxSamples < requested
      (⟨((-2 : ℚ) : WithBotTop ℚ), ((2 : ℚ) : WithBotTop ℚ)⟩ : Interval (WithBotTop ℚ))
      (67108864 : ℚ) 3 := by decide +kernel
  obtain ⟨hrefused, hexact⟩ := rendering_fails_as_documented
  obtain ⟨-, -, htoomany, -, -⟩ := hexact threeLines 67108864 3
  obtain ⟨rendered, hrendered⟩ := Except.isOk_eq_true.mp
    (show (threeLines.render (1 : ℚ) 3).isOk = true by decide +kernel)
  obtain ⟨-, -, -, -, hok⟩ := hexact threeLines 1 3
  obtain ⟨-, hchannels, hwindows⟩ := hok rendered hrendered
  have hstart : ∀ {c : Channel} {w : Waveform ℚ} {i : Interval (WithBotTop ℚ)}, threeLines.Plays c w i →
      ∃ r, (c, r) ∈ rendered ∧ r.start = (ExactLine.finite? i.lower).getD 0 := by
    intro c w i hplays
    obtain ⟨r, hr⟩ := (hchannels c).mpr ⟨w, i, hplays⟩
    obtain ⟨w', i', ⟨hw, hi⟩, hstart, -⟩ := hwindows c r hr
    obtain rfl : w' = w := Option.some.inj (hw.symm.trans hplays.1)
    obtain rfl : i' = i := Option.some.inj (hi.symm.trans hplays.2)
    exact ⟨r, hr, hstart⟩
  refine ⟨(hrefused threeLines (-1) 3 hbad).1 ⟨_, _, _, hpulse⟩,
    htoomany.mpr ⟨hgood, _, _, _, hpulse, hlong⟩, rendered, hrendered, hstart hpulse, hstart hconst,
    fun hmem => ?_⟩
  obtain ⟨w, i, hw, hi⟩ := (hchannels _).mp hmem
  obtain rfl : Waveform.zero = w := Option.some.inj (hsilent.symm.trans hw)
  exact nomatch hi

end PulseControl.Buffers
