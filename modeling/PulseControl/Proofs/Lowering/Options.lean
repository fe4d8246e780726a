import PulseControl.Proofs.Lowering.Markers

/-!
# Options do not change what a call means

Two options go with every lowering: whether markers are part of the output, and how deep gates may be
nested. Neither is more than a way of looking at the same run. Without markers the same machine runs, and
what it gives is what it gives with them, the markers taken out. The limit is asked in two places, by the
plan and again by every move that puts a gate on the stack; both only ask whether there is room, so a run
that is not refused under one limit is the same run under a higher one.

* `PulseControl.Lowering.History`, `PulseControl.Lowering.history_drain` – all that is seen of a run;
* `PulseControl.Lowering.drain_withDepth` – a run without an error under a higher limit;
* `PulseControl.Lowerer.plan_withOptions` – the plan of a call under a higher limit;
* `PulseControl.Lowerer.options_keep_meaning` – what the options can change about a call.
-/

namespace PulseControl

variable {α : Type}

namespace Lowering

/-- The same machine under another depth limit. -/
def withDepth (limit : Nat) (s : Lowering α) : Lowering α :=
  { s with options := { s.options with maxDepth := limit } }

end Lowering

/-- The same move, with the machine after it under another depth limit. -/
def Move.withDepth (limit : Nat) : Move α → Move α
  | .finished => .finished
  | .silent t => .silent (t.withDepth limit)
  | .item i t => .item i (t.withDepth limit)
  | .failure e t => .failure e (t.withDepth limit)

variable [Scalar α]

namespace Lowering

/-! ### What is seen of a run -/

/-- **All that is seen of a run** that is pulled beyond its end: these instructions one by one, then this
error, if there is one, then nothing any more, and this ledger as the context from there on. -/
structure History (s : Lowering α) (is : List (Instruction α)) (error? : Option (GateError α))
    (final : Ledger α) : Prop where
  given : ∀ n i, is[n]? = some i → (s.pulls n).next.1 = some (.ok i)
  ends : (s.pulls is.length).next.1 = error?.map .error
  closed : ∀ n, is.length < n → (s.pulls n).next.1 = none
  final : ∀ n, is.length < n → (s.pulls n).context = final

variable {s t : Lowering α} {limit : Nat}

/-- **Every run has a history**, which all of its instructions taken at once show. -/
theorem history_drain (s : Lowering α) :
    s.History s.drain.instructions s.drain.error? s.drain.state.context where
  given n i hi := s.next_pulls n i hi
  ends := by rw [next_pulls_length]
  closed n hn := by rw [s.next_pulls_of_gt hn]
  final n hn := by rw [s.pulls_of_gt hn]

/-- A run has one history. -/
theorem History.unique {is is' : List (Instruction α)} {e e' : Option (GateError α)}
    {final final' : Ledger α} (h : s.History is e final) (h' : s.History is' e' final') :
    is = is' ∧ e = e' ∧ final = final' := by
  obtain rfl : is = is' :=
    given_unique h.given (fun i => by rw [h.ends]; cases e <;> simp) h'.given
      fun i => by rw [h'.ends]; cases e' <;> simp
  have hends : e.map Except.error = e'.map (Except.error (α := Instruction α)) :=
    h.ends.symm.trans h'.ends
  have herror : Function.Injective (Except.error : GateError α → Except _ (Instruction α)) :=
    fun _ _ heq => Except.error.inj heq
  exact ⟨rfl, Option.map_injective herror hends,
    (h.final _ (Nat.lt_succ_self _)).symm.trans (h'.final _ (Nat.lt_succ_self _))⟩

/-! ### More room on the stack -/

/-- A gate that is put on the stack is put there under a higher limit too. -/
theorem enter_withDepth {call : GateCall α} {parent : GateKey} (hle : s.options.maxDepth ≤ limit)
    (h : s.enter call parent = .ok t) :
    (s.withDepth limit).enter call parent = .ok (t.withDepth limit) := by
  obtain ⟨hroom, params, synthesis, definition, hparams, hd, hs, rfl⟩ := enter_eq_ok_iff.mp h
  exact enter_eq_ok_iff.mpr
    ⟨Nat.lt_of_lt_of_le hroom hle, params, synthesis, definition, hparams, hd, hs, rfl⟩

/-- **A move that is no failure** is the same move under a higher limit. -/
theorem step_withDepth (hle : s.options.maxDepth ≤ limit) (hok : ∀ e t, s.step ≠ .failure e t) :
    (s.withDepth limit).step = s.step.withDepth limit := by
  have hmoves := s.moves_step
  generalize s.step = m at hmoves hok ⊢
  refine Moves.step_eq ?_
  rcases hmoves with hfailed | ⟨hrunning, hframes⟩ | ⟨hrunning, hframes, hnext⟩ |
    ⟨hrunning, hframes, hnext, hi⟩ | - | ⟨hrunning, hframes, hnext, ht, hemit⟩ |
    ⟨hrunning, hframes, hnext, ht, hhidden⟩
  · exact .failed hfailed
  · exact .done hrunning hframes
  · exact .pop hrunning hframes hnext
  · exact .give hrunning hframes hnext hi
  · exact absurd rfl (hok _ _)
  · exact .expand hrunning hframes hnext (enter_withDepth (s := s.use _ _ _) hle ht) hemit
  · exact .expandSilently hrunning hframes hnext (enter_withDepth (s := s.use _ _ _) hle ht) hhidden

/-- **A run without an error** is the same run under a higher limit. -/
theorem drain_withDepth (hle : s.options.maxDepth ≤ limit) (hok : s.drain.error? = none) :
    (s.withDepth limit).drain =
      { s.drain with state := s.drain.state.withDepth limit } := by
  induction s using drain_induction with
  | finished s hstep hdrain =>
    have hhigher := step_withDepth hle fun e t => by simp [hstep]
    rw [hstep] at hhigher
    rw [drain_of_finished hhigher, hdrain]
  | silent s t hstep hdrain ih =>
    have hfollows : Follows t s := Or.inl hstep
    have hhigher := step_withDepth hle fun e t => by simp [hstep]
    rw [hstep] at hhigher
    rw [hdrain] at hok
    rw [drain_of_silent hhigher, hdrain, ih (hfollows.same.2.1 ▸ hle) hok]
  | item s i t hstep hdrain ih =>
    have hfollows : Follows t s := Or.inr ⟨i, hstep⟩
    have hhigher := step_withDepth hle fun e t => by simp [hstep]
    rw [hstep] at hhigher
    rw [hdrain] at hok
    rw [drain_of_item hhigher, hdrain, ih (hfollows.same.2.1 ▸ hle) hok]
  | failure s e t _ hdrain =>
    rw [hdrain] at hok
    exact absurd hok (Option.some_ne_none e)

/-- A run without an error has the same history under a higher limit. -/
theorem history_withDepth (hle : s.options.maxDepth ≤ limit) (hok : s.drain.error? = none) :
    (s.withDepth limit).History s.drain.instructions none s.drain.state.context := by
  have hhistory := (s.withDepth limit).history_drain
  rwa [drain_withDepth hle hok, hok] at hhistory

end Lowering

/-! ### Calls -/

namespace Lowerer

/-- The same lowerer with other options. -/
def withOptions (l : Lowerer α) (options : LoweringOptions) : Lowerer α :=
  { l with options := options }

variable {l : Lowerer α} {call : GateCall α} {seed : Ledger α} {s : Lowering α}

/-- A plain walk that succeeds does not look at the options. -/
theorem treePlan_withOptions {room : Nat} {visits : List (Slot × Params α)}
    (h : l.treePlan room call = .ok visits) (options : LoweringOptions) :
    (l.withOptions options).treePlan room call = .ok visits := by
  induction room generalizing call visits with
  | zero => exact nomatch h
  | succ room ih =>
    rw [treePlan_succ_eq_ok] at h ⊢
    obtain ⟨definition, params, below, hd, hp, hs, hb, rfl⟩ := h
    refine ⟨definition, params, below, hd, hp, hs, ?_, rfl⟩
    rw [treesBelow, Except.mapM_eq_ok] at hb ⊢
    refine hb.imp fun step vs hstep => ?_
    rw [Except.bind_eq_ok] at hstep ⊢
    obtain ⟨inner, hbind, hinner⟩ := hstep
    exact ⟨inner, hbind, ih hinner⟩

/-- **A call that is planned has the same plan under a higher limit.** -/
theorem plan_withOptions {options : LoweringOptions} {plan : Plan α}
    (hle : l.options.maxDepth ≤ options.maxDepth) (h : l.plan call = .ok plan) :
    (l.withOptions options).plan call = .ok plan := by
  obtain ⟨visits, hv, hslots⟩ := plan_eq_ok.mp h
  exact plan_eq_ok.mpr ⟨visits, treePlan_mono (treePlan_withOptions hv options) hle, hslots⟩

/-- A call that can be started is started in the same way under a higher limit. -/
theorem lower_withOptions {limit : Nat} (hle : l.options.maxDepth ≤ limit)
    (h : l.lower call seed = .ok s) :
    (l.withOptions { l.options with maxDepth := limit }).lower call seed =
      .ok (s.withDepth limit) := by
  obtain ⟨plan, hplan, henter⟩ := lower_eq_ok.mp h
  exact lower_eq_ok.mpr ⟨plan, plan_withOptions hle hplan, Lowering.enter_withDepth hle henter⟩

/-- **What markers can change about a call**: nothing about whether it starts, and of its run only that
the markers are given. -/
theorem history_without_markers {hidden : Lowering α} (hmarkers : l.options.emitExpansions = false)
    (h : l.lower call seed = .ok hidden) (hs : l.withMarkers.lower call seed = .ok s) :
    ∃ is error? final, s.History is error? final ∧
      hidden.History (is.filter fun i => !i.isExpand) error? final := by
  rw [lower_withMarkers, h] at hs
  obtain rfl : hidden.withMarkers = s := Except.ok.inj hs
  obtain ⟨hshown, herror, hstate⟩ := hidden.drain_withMarkers
  refine ⟨_, _, _, hidden.withMarkers.history_drain, ?_⟩
  have hhistory := hidden.history_drain
  rw [hshown, LoweringOptions.shown, options_of_lower h, hmarkers] at hhistory
  simp only [Bool.false_or] at hhistory
  rw [herror, hstate]
  exact hhistory

/-- **What a higher limit can change about a call** that runs without an error: nothing. -/
theorem exists_lower_of_le {limit : Nat} (hle : l.options.maxDepth ≤ limit)
    (h : l.lower call seed = .ok s) (hok : ∀ n e, (s.pulls n).next.1 ≠ some (.error e)) :
    ∃ t is final, (l.withOptions { l.options with maxDepth := limit }).lower call seed = .ok t ∧
      s.History is none final ∧ t.History is none final := by
  have hnone := Lowering.error?_drain hok
  have hhistory := s.history_drain
  rw [hnone] at hhistory
  exact ⟨_, _, _, lower_withOptions hle h, hhistory,
    Lowering.history_withDepth (options_of_lower h ▸ hle) hnone⟩

/-- **Options do not change what a call means.** Without markers it starts where it does with them, and
its run has the same history but for the markers, up to the same error and with the same context at the
end. Under two limits that it runs under without an error it has the same history, and under a limit
above one that it runs under without an error it runs without one. -/
theorem options_keep_meaning (l : Lowerer α) (call : GateCall α) (seed : Ledger α) :
    (∀ depth,
      (∀ e, (l.withOptions ⟨depth, false⟩).lower call seed = .error e ↔
        (l.withOptions ⟨depth, true⟩).lower call seed = .error e) ∧
      ∀ shown hidden, (l.withOptions ⟨depth, true⟩).lower call seed = .ok shown →
        (l.withOptions ⟨depth, false⟩).lower call seed = .ok hidden →
        ∃ is error? final, shown.History is error? final ∧
          hidden.History (is.filter fun i => !i.isExpand) error? final) ∧
    (∀ markers depth depth' s s', (l.withOptions ⟨depth, markers⟩).lower call seed = .ok s →
      (l.withOptions ⟨depth', markers⟩).lower call seed = .ok s' →
      (∀ n e, (s.pulls n).next.1 ≠ some (.error e)) →
      (∀ n e, (s'.pulls n).next.1 ≠ some (.error e)) →
      ∃ is final, s.History is none final ∧ s'.History is none final) ∧
    ∀ markers depth depth' s, depth ≤ depth' →
      (l.withOptions ⟨depth, markers⟩).lower call seed = .ok s →
      (∀ n e, (s.pulls n).next.1 ≠ some (.error e)) →
      ∃ s' is final, (l.withOptions ⟨depth', markers⟩).lower call seed = .ok s' ∧
        s.History is none final ∧ s'.History is none final := by
  have hhigher : ∀ {markers depth depth' s}, depth ≤ depth' →
      (l.withOptions ⟨depth, markers⟩).lower call seed = .ok s →
      (∀ n e, (s.pulls n).next.1 ≠ some (.error e)) →
      ∃ s' is final, (l.withOptions ⟨depth', markers⟩).lower call seed = .ok s' ∧
        s.History is none final ∧ s'.History is none final := fun hle hs hok =>
    exists_lower_of_le (l := l.withOptions ⟨_, _⟩) hle hs hok
  refine ⟨fun depth => ⟨fun e => ?_, fun shown hidden hs hh => ?_⟩,
    fun markers depth depth' s s' hs hs' hok hok' => ?_,
    fun markers depth depth' s hle hs hok => hhigher hle hs hok⟩
  · rw [show l.withOptions ⟨depth, true⟩ = (l.withOptions ⟨depth, false⟩).withMarkers from rfl,
      lower_withMarkers, Except.map_eq_error]
  · exact history_without_markers (l := l.withOptions ⟨depth, false⟩) rfl hh hs
  · rcases Nat.le_total depth depth' with hle | hle
    · obtain ⟨t, is, final, ht, hhistory, hhistory'⟩ := hhigher hle hs hok
      obtain rfl : t = s' := Except.ok.inj (ht.symm.trans hs')
      exact ⟨is, final, hhistory, hhistory'⟩
    · obtain ⟨t, is, final, ht, hhistory, hhistory'⟩ := hhigher hle hs' hok'
      obtain rfl : t = s := Except.ok.inj (ht.symm.trans hs)
      exact ⟨is, final, hhistory', hhistory⟩

/-- The controlled flip of the library with markers, without them and under a higher limit. -/
theorem controlledFlip_under_options : ∃ shown hidden deeper is final,
    (StandardGates.floatLowerer.withOptions ⟨32, true⟩).lower StandardGates.controlledFlip ∅ =
      .ok shown ∧
    (StandardGates.floatLowerer.withOptions ⟨32, false⟩).lower StandardGates.controlledFlip ∅ =
      .ok hidden ∧
    (StandardGates.floatLowerer.withOptions ⟨64, true⟩).lower StandardGates.controlledFlip ∅ =
      .ok deeper ∧
    shown.History is none final ∧ hidden.History (is.filter fun i => !i.isExpand) none final ∧
      deeper.History is none final := by
  obtain ⟨hmarkers, hlimits, hhigher⟩ :=
    options_keep_meaning StandardGates.floatLowerer StandardGates.controlledFlip ∅
  have hdecl := StandardGates.extended_floatRegistry.wellDeclared
  have hstarts : ∀ options, options = ⟨32, true⟩ ∨ options = ⟨32, false⟩ →
      ((StandardGates.floatLowerer.withOptions options).lower StandardGates.controlledFlip ∅).isOk =
        true := by
    rintro _ (rfl | rfl) <;> decide +kernel
  have herrorFree : ∀ {options s},
      (StandardGates.floatLowerer.withOptions options).lower StandardGates.controlledFlip ∅ = .ok s →
      ∀ n e, (s.pulls n).next.1 ≠ some (.error e) := fun hs n =>
    (((lower_safe hdecl hs).pulls hdecl n).next hdecl).1
  obtain ⟨shown, hs⟩ := Except.isOk_eq_true.mp (hstarts _ (Or.inl rfl))
  obtain ⟨hidden, hh⟩ := Except.isOk_eq_true.mp (hstarts _ (Or.inr rfl))
  obtain ⟨deeper, -, -, hd, -⟩ := hhigher true 32 64 shown (by decide) hs (herrorFree hs)
  obtain ⟨is, final, hshown, hdeeper⟩ :=
    hlimits true 32 64 shown deeper hs hd (herrorFree hs) (herrorFree hd)
  obtain ⟨is', error?, final', hshown', hhidden⟩ := (hmarkers 32).2 shown hidden hs hh
  obtain ⟨rfl, rfl, rfl⟩ := hshown.unique hshown'
  exact ⟨shown, hidden, deeper, is, final, hs, hh, hd, hshown, hhidden, hdeeper⟩

end Lowerer

end PulseControl
