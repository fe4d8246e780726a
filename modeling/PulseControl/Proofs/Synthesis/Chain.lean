import PulseControl.Proofs.Synthesis

/-!
# Syntheses in a row

A synthesis keeps what it still has to give in two places, the instructions that the last stage has left
and the stages that have not been reached. Only the two together matter: put in one row, they say what
comes next on any ledger, what a run gives and whether anything is left. In this view to chain two
syntheses is to append their rows, wherever either of them has been interrupted.

* `PulseControl.Synthesis.drain` – a run that asks for one instruction after the other;
* `PulseControl.Synthesis.Alike` – syntheses that nothing tells apart;
* `PulseControl.Synthesis.allStages_chain`, `PulseControl.Synthesis.alike_of_allStages` – the view;
* `PulseControl.Synthesis.chain_runs_in_turn` – one synthesis after the other.
-/

namespace PulseControl

namespace Synthesis

variable {α : Type} {s t : Synthesis α} {l : Ledger α} {i : Instruction α}
  {stages stages' : List (Stage α)}

/-! ### What can be seen of a synthesis -/

/-- **A run step by step**: the next instruction is asked for on the ledger that the ones before have
left, until there is none. -/
def drain (s : Synthesis α) (l : Ledger α) : List (Instruction α) × Ledger α :=
  match _h : s.next l with
  | none => ([], l)
  | some (i, t) => (i :: (drain t (l.apply i)).1, (drain t (l.apply i)).2)
termination_by s.measure
decreasing_by all_goals exact measure_next _h

/-- What a synthesis gives when its next instruction is asked for on one ledger after the other, with
whether it is exhausted thereafter. -/
def observe (s : Synthesis α) : List (Ledger α) → List (Instruction α × Bool)
  | [] => []
  | l :: ls =>
    match s.next l with
    | none => []
    | some (i, t) => (i, t.isExhausted) :: t.observe ls

/-- **Syntheses that nothing tells apart**: both are exhausted or none is, they run alike from every
ledger, and they give the same on whatever ledgers they are asked. -/
structure Alike (s t : Synthesis α) : Prop where
  isExhausted_eq : s.isExhausted = t.isExhausted
  run_eq : ∀ l, s.run l = t.run l
  observe_eq : ∀ ls, s.observe ls = t.observe ls

/-! ### All stages in one row -/

theorem allStages_chain (s t : Synthesis α) :
    (s.chain t).allStages = s.allStages ++ t.allStages := by
  rw [allStages, allStages, allStages, chain, List.append_assoc]

theorem isExhausted_iff : s.isExhausted = true ↔ s.allStages = [] := by
  simp [isExhausted, allStages]

theorem isExhausted_congr (h : s.allStages = t.allStages) : s.isExhausted = t.isExhausted := by
  rw [Bool.eq_iff_iff, isExhausted_iff, isExhausted_iff, h]

/-- **The next instruction and the row that it leaves** are read off the row. -/
theorem next_eq_nextOf (s : Synthesis α) (l : Ledger α) :
    (s.next l).map (Prod.map id allStages) =
      (nextOf l s.allStages).map (Prod.map id allStages) := by
  obtain ⟨stages, pending⟩ := s
  cases pending with
  | nil => rfl
  | cons i is => rfl

theorem runStages_append (l : Ledger α) : runStages (stages ++ stages') l =
    ((runStages stages l).1 ++ (runStages stages' (runStages stages l).2).1,
      (runStages stages' (runStages stages l).2).2) := by
  induction stages generalizing l with
  | nil => rfl
  | cons stage stages ih =>
    cases stage with
    | emit i => simp only [List.cons_append, runStages, ih]
    | deferred f => simp only [List.cons_append, runStages, ih, List.append_assoc]

theorem runStages_emits (is : List (Instruction α)) (l : Ledger α) :
    runStages (is.map .emit) l = (is, l.applyAll is) := by
  induction is generalizing l with
  | nil => rfl
  | cons i is ih => simp only [List.map_cons, runStages, ih, Ledger.applyAll_cons]

/-- **A run is a run of the row.** -/
theorem run_eq_runStages (s : Synthesis α) (l : Ledger α) : s.run l = runStages s.allStages l := by
  rw [allStages, runStages_append, runStages_emits]
  rfl

/-! ### Step by step -/

/-- A run starts with the instruction that comes next, and goes on with what is left. -/
theorem runStages_of_nextOf (h : nextOf l stages = some (i, t)) :
    runStages stages l = (i :: (t.run (l.apply i)).1, (t.run (l.apply i)).2) := by
  induction stages with
  | nil => cases h
  | cons stage stages ih =>
    cases stage with
    | emit j =>
      cases h
      rfl
    | deferred f =>
      rw [nextOf] at h
      split at h
      · next hf =>
        rw [runStages, hf]
        exact ih h
      · next j js hf =>
        cases h
        rw [runStages, hf]
        rfl

/-- A run that starts with nothing gives nothing. -/
theorem runStages_of_nextOf_eq_none (h : nextOf l stages = none) : runStages stages l = ([], l) := by
  induction stages with
  | nil => rfl
  | cons stage stages ih =>
    cases stage with
    | emit j => cases h
    | deferred f =>
      rw [nextOf] at h
      split at h
      · next hf =>
        rw [runStages, hf]
        exact ih h
      · cases h

theorem run_of_next (h : s.next l = some (i, t)) :
    s.run l = (i :: (t.run (l.apply i)).1, (t.run (l.apply i)).2) := by
  obtain ⟨stages, pending⟩ := s
  cases pending with
  | nil => exact runStages_of_nextOf h
  | cons j js =>
    cases h
    rfl

theorem run_of_next_eq_none (h : s.next l = none) : s.run l = ([], l) := by
  obtain ⟨stages, pending⟩ := s
  cases pending with
  | nil => exact runStages_of_nextOf_eq_none h
  | cons j js => cases h

/-- **A run step by step is a run.** -/
theorem drain_eq_run (s : Synthesis α) (l : Ledger α) : s.drain l = s.run l := by
  induction s, l using drain.induct with
  | case1 s l h =>
    rw [run_of_next_eq_none h, drain]
    split
    · rfl
    · next h' => cases h.symm.trans h'
  | case2 s l i t h ih =>
    rw [run_of_next h, drain]
    split
    · next h' => cases h.symm.trans h'
    · next h' =>
      cases h.symm.trans h'
      rw [ih]

/-! ### Rows that are the same -/

/-- What is asked for one by one is read off the row as well. -/
theorem observe_of_allStages (h : s.allStages = t.allStages) (ls : List (Ledger α)) :
    s.observe ls = t.observe ls := by
  induction ls generalizing s t with
  | nil => rfl
  | cons l ls ih =>
    have hnext : (s.next l).map (Prod.map id allStages) = (t.next l).map (Prod.map id allStages) := by
      rw [next_eq_nextOf, next_eq_nextOf, h]
    rw [observe, observe]
    cases hs : s.next l with
    | none =>
      rw [hs] at hnext
      rw [Option.map_eq_none_iff.mp hnext.symm]
    | some found =>
      rw [hs] at hnext
      obtain ⟨found', ht, hsame⟩ := Option.map_eq_some_iff.mp hnext.symm
      obtain ⟨i, rest⟩ := found
      obtain ⟨i', rest'⟩ := found'
      obtain ⟨rfl, hrest⟩ : i' = i ∧ rest'.allStages = rest.allStages := Prod.mk.inj hsame
      simp only [ht, isExhausted_congr hrest, ih hrest]

/-- **Syntheses of one row are alike.** -/
theorem alike_of_allStages (h : s.allStages = t.allStages) : s.Alike t where
  isExhausted_eq := isExhausted_congr h
  run_eq l := by rw [run_eq_runStages, run_eq_runStages, h]
  observe_eq := observe_of_allStages h

/-- **One synthesis after the other.** Two syntheses in a row, however much of them has been given
already, run as the first one and then the second one on the ledger that the first leaves, and they are
exhausted when both are. Three in a row are alike in whichever way they are put together, and the empty
synthesis before or after another one makes no difference. To ask for one instruction after the other is
to run. -/
theorem chain_runs_in_turn (a b c : Synthesis α) :
    (∀ l, (a.chain b).run l =
      ((a.run l).1 ++ (b.run (a.run l).2).1, (b.run (a.run l).2).2)) ∧
    ((a.chain b).isExhausted = true ↔ a.isExhausted = true ∧ b.isExhausted = true) ∧
    ((a.chain b).chain c).Alike (a.chain (b.chain c)) ∧
    ((∅ : Synthesis α).chain a).Alike a ∧ (a.chain ∅).Alike a ∧
    ∀ l, a.drain l = a.run l := by
  have hempty : (∅ : Synthesis α).allStages = [] := rfl
  refine ⟨fun l => ?_, ?_, alike_of_allStages ?_, alike_of_allStages ?_, alike_of_allStages ?_,
    drain_eq_run a⟩
  · simp only [run_eq_runStages, allStages_chain, runStages_append]
  · simp only [isExhausted_iff, allStages_chain, List.append_eq_nil_iff]
  · simp only [allStages_chain, List.append_assoc]
  · rw [allStages_chain, hempty, List.nil_append]
  · rw [allStages_chain, hempty, List.append_nil]

end Synthesis

end PulseControl
