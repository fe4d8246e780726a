import PulseControl.Proofs.FloatOrder
import PulseControl.Proofs.Ledger.Latest
import PulseControl.Proofs.Param.Idempotence
import PulseControl.Proofs.StandardGates.Locality

/-!
# Barriers

A barrier looks for the latest of the cursors of its targets and sets those that lag behind it. Programs that
are put together from parts have more barriers than they need, and rely on their laws: a barrier behind
itself does nothing, the order of the targets does not matter, and a barrier behind one on some of its
targets does what it does alone. The reason for all three is the same. A barrier moves cursors up to a time
that one of them shows or that is 0, so a barrier on as many qubits or more finds the same latest cursor
behind it as without it.

Cursors are scalars that may compare equal without being identical: a cursor of `-0` does not lag behind 0
and stays. What a barrier sets, however, is a positive number or 0 itself, so the ledgers are identical.

* `PulseControl.Barrier.times_aligned` – the cursors behind a barrier;
* `PulseControl.Barrier.maxTime_aligned` – the latest cursor behind a barrier;
* `PulseControl.Barrier.align_aligned`, `PulseControl.Barrier.aligned_aligned` – barriers one behind the
  other;
* `PulseControl.StandardGates.Extended.exists_plan_barrier` – the barriers that are accepted;
* `PulseControl.StandardGates.barriers_align` – what a barrier does, and the laws of barriers.
-/

namespace PulseControl

variable {α : Type} [Scalar α] {l : Ledger α} {qs rs : List Qubit}

namespace Barrier

/-- The ledger behind a barrier. -/
def aligned (qs : List Qubit) (l : Ledger α) : Ledger α := l.applyAll (align qs l)

@[simp] theorem phases_aligned (qs : List Qubit) (l : Ledger α) : (aligned qs l).phases = l.phases :=
  (Ledger.rest_applyAll_setTime l _ _).1

@[simp] theorem biases_aligned (qs : List Qubit) (l : Ledger α) : (aligned qs l).biases = l.biases :=
  (Ledger.rest_applyAll_setTime l _ _).2.1

@[simp] theorem measures_aligned (qs : List Qubit) (l : Ledger α) :
    (aligned qs l).measures = l.measures :=
  (Ledger.rest_applyAll_setTime l _ _).2.2

/-- **The cursors behind a barrier.** -/
theorem times_aligned (qs : List Qubit) (l : Ledger α) (q : Qubit) :
    (aligned qs l).times[q]? =
      if q ∈ qs ∧ l.time q < l.maxTime qs then some (l.maxTime qs) else l.times[q]? := by
  rw [aligned, align, Ledger.times_applyAll_setTime]
  simp only [List.mem_filter, decide_eq_true_eq]

theorem time_aligned (qs : List Qubit) (l : Ledger α) (q : Qubit) :
    (aligned qs l).time q = if q ∈ qs ∧ l.time q < l.maxTime qs then l.maxTime qs else l.time q := by
  rw [Ledger.time, times_aligned]
  split <;> rfl

variable [OrderedScalar α]

theorem cursorsDefined_aligned (h : l.CursorsDefined) (qs : List Qubit) :
    (aligned qs l).CursorsDefined := by
  intro q
  rw [time_aligned]
  split
  · exact h.maxTime qs
  · exact h q

/-- A barrier moves no cursor back. -/
theorem time_le_aligned (h : l.CursorsDefined) (qs : List Qubit) (q : Qubit) :
    l.time q ≤ (aligned qs l).time q := by
  rw [time_aligned]
  split
  · next hlags => exact (h q).le_of_lt (h.maxTime qs) hlags.2
  · exact (h q).le_refl

/-- **Behind a barrier its targets show the latest cursor.** -/
theorem time_aligned_beq (h : l.CursorsDefined) {q : Qubit} (hq : q ∈ qs) :
    ((aligned qs l).time q == l.maxTime qs) = true := by
  rw [OrderedScalar.beq_iff, time_aligned]
  split
  · exact ⟨(h.maxTime qs).le_refl, (h.maxTime qs).le_refl⟩
  · next hlags =>
    have hnot : ¬l.time q < l.maxTime qs := fun hlt => hlags ⟨hq, hlt⟩
    exact ⟨h.time_le_maxTime hq, ((h q).not_lt (h.maxTime qs)).mp hnot⟩

/-- **Behind a barrier on some of them, the latest cursor of qubits is what it was.** -/
theorem maxTime_aligned (h : l.CursorsDefined) (hsub : qs ⊆ rs) :
    (aligned qs l).maxTime rs = l.maxTime rs := by
  have hdefined := cursorsDefined_aligned h qs
  refine Ledger.maxTime_antisymm hdefined h ?_ ?_
  · refine hdefined.maxTime_le_iff.mpr ⟨h.maxTime_nonneg rs, fun q hq => ?_⟩
    rw [time_aligned]
    split
    · exact h.maxTime_mono hsub
    · exact h.time_le_maxTime hq
  · refine h.maxTime_le_iff.mpr ⟨hdefined.maxTime_nonneg rs, fun q hq => ?_⟩
    exact OrderedScalar.le_trans (time_le_aligned h qs q) (hdefined.time_le_maxTime hq)

/-- **A barrier behind one on the same qubits finds nothing to do.** -/
theorem align_aligned (h : l.CursorsDefined) (hsub : qs ⊆ rs) (hsup : rs ⊆ qs) :
    align rs (aligned qs l) = [] := by
  have hlatest : l.maxTime rs = l.maxTime qs :=
    Ledger.maxTime_antisymm h h (h.maxTime_mono hsup) (h.maxTime_mono hsub)
  have hnone : ∀ q ∈ rs, ¬(aligned qs l).time q < l.maxTime qs := fun q hq =>
    ((cursorsDefined_aligned h qs q).not_lt (h.maxTime qs)).mpr
      (OrderedScalar.beq_iff.mp (time_aligned_beq h (hsup hq))).2
  rw [align, maxTime_aligned h hsub, hlatest, List.map_eq_nil_iff, List.filter_eq_nil_iff]
  simpa using hnone

/-- **A barrier behind one on some of its targets** leaves what it leaves alone. -/
theorem aligned_aligned (h : l.CursorsDefined) (hsub : qs ⊆ rs) :
    aligned rs (aligned qs l) = aligned rs l := by
  refine Ledger.eq_of_times (fun q => ?_) (by simp) (by simp) (by simp)
  by_cases hlags : q ∈ qs ∧ l.time q < l.maxTime qs
  · -- the first barrier has moved the cursor, at most as far as the second one would
    have hmono := h.maxTime_mono hsub
    have hlate : q ∈ rs ∧ l.time q < l.maxTime rs :=
      ⟨hsub hlags.1, (h q).lt_of_lt_of_le (h.maxTime qs) (h.maxTime rs) hlags.2 hmono⟩
    rw [times_aligned, times_aligned rs l, maxTime_aligned h hsub, time_aligned, times_aligned,
      if_pos hlags, if_pos hlags, if_pos hlate]
    split
    · rfl
    · next hdone =>
      have hnot : ¬l.maxTime qs < l.maxTime rs := fun hlt => hdone ⟨hsub hlags.1, hlt⟩
      have hge := ((h.maxTime qs).not_lt (h.maxTime rs)).mp hnot
      rw [Ledger.maxTime_antisymm h h hmono hge]
  · rw [times_aligned, times_aligned rs l, maxTime_aligned h hsub, time_aligned, times_aligned,
      if_neg hlags, if_neg hlags]

/-- **The order of the targets does not matter.** -/
theorem aligned_congr (h : l.CursorsDefined) (hsub : qs ⊆ rs) (hsup : rs ⊆ qs) :
    aligned rs l = aligned qs l := by
  rw [← aligned_aligned h hsub, aligned, align_aligned h hsub hsup, Ledger.applyAll_nil]

end Barrier

/-! ### Lowering barriers -/

namespace StandardGates

/-- A barrier on some qubits. -/
def barrier (qs : List Qubit) : GateCall α := ⟨.plain "Barrier", qs, []⟩

variable {w : Lowerer α}

theorem mem_barrier (qs : List Qubit) :
    ((barrier (α := α) qs).key, .primitive [] Barrier.procedure) ∈ definitions (α := α) := by
  simp [barrier, definitions, primitives]

/-- Barriers are on one or more qubits, all different. -/
theorem check_barrier : (Barrier.procedure (α := α)).signature.check (barrier qs : GateCall α) = .ok () ↔
    qs ≠ [] ∧ qs.Nodup := by
  have hone : (Arity.atLeast 1).accepts qs.length = true ↔ qs ≠ [] := by
    rw [← List.length_pos_iff]
    exact decide_eq_true_iff
  rw [Signature.check_eq_ok]
  constructor
  · rintro ⟨hlength, hnodup, -⟩
    exact ⟨hone.mp hlength, hnodup⟩
  · rintro ⟨hne, hnodup⟩
    exact ⟨hone.mpr hne, hnodup, rfl, List.forall_mem_nil _⟩

/-- A barrier without overrides is planned, and it expands to what it computes. -/
theorem Extended.barrier_ready (hl : Extended w.registry) (hdepth : 0 < w.options.maxDepth)
    (hfits : qs ≠ [] ∧ qs.Nodup) (hcal : w.calibration ⟨.plain "Barrier", qs⟩ = ∅) :
    ∃ plan, w.plan (barrier qs) = .ok plan ∧ ∀ ledger,
      w.Expansion (barrier qs) ledger (Barrier.align qs ledger) (Barrier.aligned qs ledger) := by
  obtain ⟨-, plan, -, -, -, hplan, hexp⟩ := hl.defer_ready hdepth (mem_barrier qs)
    (check_barrier.mpr hfits) hcal rfl (fun _ _ => rfl) fun _ => Barrier.align_plain qs
  exact ⟨plan, hplan, hexp⟩

/-- **The barriers that are accepted** are those on one or more qubits, all different, for which nothing is
overridden: a barrier has no parameters. -/
theorem Extended.exists_plan_barrier (hl : Extended w.registry) :
    (∃ plan, w.plan (barrier qs) = .ok plan) ↔ 0 < w.options.maxDepth ∧ (qs ≠ [] ∧ qs.Nodup) ∧
      w.calibration ⟨.plain "Barrier", qs⟩ = ∅ := by
  constructor
  · rintro ⟨plan, hplan⟩
    obtain ⟨visits, hv, -⟩ := Lowerer.plan_eq_ok.mp hplan
    obtain ⟨room, hroom⟩ := Lowerer.exists_room_of_treePlan hv
    rw [hroom] at hv
    obtain ⟨definition, params, -, hd, hres, -⟩ := Lowerer.treePlan_succ_eq_ok.mp hv
    obtain ⟨hget, hcheck⟩ := Registry.checkCall_eq_ok.mp hd
    obtain rfl := Option.some_inj.mp ((hl.get?_of_mem (mem_barrier qs)).symm.trans hget)
    have hdeclared :=
      (ParamSchema.resolve_eq_ok.mp ((Registry.resolve_primitive hget _).symm.trans hres)).1
    exact ⟨by omega, check_barrier.mp hcheck, Std.ExtTreeMap.eq_empty_iff_forall_not_mem.mpr
      fun name hname => List.not_mem_nil (hdeclared name hname)⟩
  · rintro ⟨hdepth, hfits, hcal⟩
    obtain ⟨plan, hplan, -⟩ := hl.barrier_ready hdepth hfits hcal
    exact ⟨plan, hplan⟩

/-- **A barrier is lowered to what it computes.** -/
theorem Extended.lowerInto_barrier (hl : Extended w.registry) (hdepth : 0 < w.options.maxDepth)
    (hfits : qs ≠ [] ∧ qs.Nodup) (hcal : w.calibration ⟨.plain "Barrier", qs⟩ = ∅)
    (ledger : Ledger α) :
    w.lowerInto (barrier qs) ledger = .ok (Barrier.align qs ledger, Barrier.aligned qs ledger) := by
  obtain ⟨plan, hplan, hexp⟩ := hl.barrier_ready hdepth hfits hcal
  have hinto := hl.lowerInto_of_expansion hplan (hexp ledger)
  rwa [w.options.shown_of_plain (Barrier.align_plain qs ledger)] at hinto

/-- **A barrier aligns its targets, and barriers can be doubled, reordered and absorbed.** In a registry of
the library and any compound gates, with any options, without overrides for barriers and on any ledger
whose cursors are numbers: a barrier on one or more different qubits is lowered, and behind it every target
shows the greatest of 0 and the cursors of the targets, while nothing else in the ledger has changed. The
same barrier once more gives no instruction; with the targets in any other order the barrier leaves the same
ledger; and behind it a barrier on these and any further qubits leaves the ledger that it leaves alone. -/
theorem barriers_align [OrderedScalar α] (hl : Extended w.registry) (hdepth : 0 < w.options.maxDepth)
    (hcal : ∀ qs, w.calibration ⟨.plain "Barrier", qs⟩ = ∅) (ledger : Ledger α)
    (hledger : ledger.CursorsDefined) (qs : List Qubit) (hne : qs ≠ []) (hnodup : qs.Nodup) :
    ∃ is latest final, w.lowerInto (barrier qs) ledger = .ok (is, final) ∧
      ledger.IsLatest qs latest ∧ (∀ q ∈ qs, (final.time q == latest) = true) ∧
      (∀ q ∉ qs, final.times[q]? = ledger.times[q]?) ∧ final.phases = ledger.phases ∧
      final.biases = ledger.biases ∧ final.measures = ledger.measures ∧
      w.lowerInto (barrier qs) final = .ok ([], final) ∧
      (∀ rs, rs.Perm qs → ∃ js, w.lowerInto (barrier rs) ledger = .ok (js, final)) ∧
      ∀ rs, rs.Nodup → qs ⊆ rs → ∃ js ks last, w.lowerInto (barrier rs) final = .ok (js, last) ∧
        w.lowerInto (barrier rs) ledger = .ok (ks, last) := by
  have hlower (rs : List Qubit) (hfits : rs ≠ [] ∧ rs.Nodup) (l : Ledger α) :
      w.lowerInto (barrier rs) l = .ok (Barrier.align rs l, Barrier.aligned rs l) :=
    hl.lowerInto_barrier hdepth hfits (hcal rs) l
  refine ⟨_, ledger.maxTime qs, _, hlower qs ⟨hne, hnodup⟩ ledger, hledger.isLatest_maxTime qs,
    fun q hq => Barrier.time_aligned_beq hledger hq, fun q hq => ?_, Barrier.phases_aligned qs ledger,
    Barrier.biases_aligned qs ledger, Barrier.measures_aligned qs ledger, ?_, fun rs hperm => ?_,
    fun rs hnodup' hsub => ?_⟩
  · rw [Barrier.times_aligned, if_neg fun hlags => hq hlags.1]
  · have hself := List.Subset.refl qs
    rw [hlower qs ⟨hne, hnodup⟩, Barrier.align_aligned hledger hself hself,
      Barrier.aligned_aligned hledger hself]
  · have hne' : rs ≠ [] := fun hnil => hne (List.perm_nil.mp (hnil ▸ hperm.symm))
    rw [hlower rs ⟨hne', hperm.nodup_iff.mpr hnodup⟩ ledger,
      Barrier.aligned_congr hledger hperm.symm.subset hperm.subset]
    exact ⟨_, rfl⟩
  · have hne' : rs ≠ [] := fun hnil => hne (List.subset_nil.mp (hnil ▸ hsub))
    refine ⟨_, Barrier.align rs ledger, _, hlower rs ⟨hne', hnodup'⟩ _, ?_⟩
    rw [hlower rs ⟨hne', hnodup'⟩, Barrier.aligned_aligned hledger hsub]

/-- A barrier on two qubits of which one lags behind. -/
theorem two_qubits_align : ∃ (ledger : Ledger Float) (is : List (Instruction Float)) (latest : Float)
    (final : Ledger Float), ledger.CursorsDefined ∧ ledger.time "Q1" < ledger.time "Q0" ∧
      floatLowerer.lowerInto (barrier ["Q0", "Q1"]) ledger = .ok (is, final) ∧
      (final.time "Q0" == latest) = true ∧ (final.time "Q1" == latest) = true ∧
      floatLowerer.lowerInto (barrier ["Q0", "Q1"]) final = .ok ([], final) := by
  let ledger : Ledger Float := Ledger.apply ∅ (.setTime "Q0" 3)
  have htime (q : Qubit) : ledger.time q = if "Q0" = q then 3 else 0 :=
    Ledger.time_apply_setTime ∅ "Q0" q 3
  have hledger : ledger.CursorsDefined := by
    intro q
    rw [htime]
    split
    · exact show Float.isNaN 3 = false by decide +kernel
    · exact OrderedScalar.defined_zero
  have hlags : ledger.time "Q1" < ledger.time "Q0" := by
    rw [htime, htime, if_pos rfl, if_neg (by decide)]
    decide +kernel
  obtain ⟨is, latest, final, hinto, -, hshows, -, -, -, -, hagain, -⟩ :=
    barriers_align (w := floatLowerer) extended_floatRegistry (by decide) (fun _ => rfl) ledger hledger
      ["Q0", "Q1"] (by decide) (by decide)
  exact ⟨ledger, is, latest, final, hledger, hlags, hinto, hshows "Q0" (by decide),
    hshows "Q1" (by decide), hagain⟩

end StandardGates

end PulseControl
