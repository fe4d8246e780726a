import PulseControl.Synthesis

/-!
# What a synthesis can give

The instructions of a synthesis depend on the ledgers that it meets. What it gives when every
instruction may meet a ledger of its own is an upper bound that looks at no run.

* `PulseControl.Synthesis.CanEmit` – the instructions that may come, on any ledgers;
* `PulseControl.Synthesis.canEmit_iff` – they are those that are pending or that a stage can give.
-/

namespace PulseControl

variable {α : Type}

/-- **An instruction that a synthesis can give**, where each of its instructions may meet any ledger. -/
inductive Synthesis.CanEmit : Synthesis α → Instruction α → Prop where
  | now {s rest : Synthesis α} {i : Instruction α} (l : Ledger α) :
    s.next l = some (i, rest) → s.CanEmit i
  | later {s rest : Synthesis α} {i j : Instruction α} (l : Ledger α) :
    s.next l = some (j, rest) → rest.CanEmit i → s.CanEmit i

/-- What a stage can give, on any ledger. -/
def Stage.CanEmit : Stage α → Instruction α → Prop
  | .emit j, i => i = j
  | .deferred f, i => ∃ l, i ∈ f l

namespace Synthesis

/-- All stages of a synthesis, what is pending first. -/
def allStages (s : Synthesis α) : List (Stage α) := s.pending.map .emit ++ s.stages

theorem allStages_of_pending {s : Synthesis α} (h : s.pending = []) : s.allStages = s.stages := by
  rw [allStages, h, List.map_nil, List.nil_append]

/-- One of some stages can give an instruction. -/
def SomeEmits (stages : List (Stage α)) (i : Instruction α) : Prop :=
  ∃ stage ∈ stages, stage.CanEmit i

theorem SomeEmits.cons {stages : List (Stage α)} {i : Instruction α} (h : SomeEmits stages i)
    (stage : Stage α) : SomeEmits (stage :: stages) i := by
  obtain ⟨stage', hmem, hi⟩ := h
  exact ⟨stage', List.mem_cons_of_mem _ hmem, hi⟩

/-- What comes next is from one of the stages, and so is what can come after it. -/
theorem nextOf_emits {l : Ledger α} {stages : List (Stage α)} {i : Instruction α}
    {rest : Synthesis α} (h : nextOf l stages = some (i, rest)) :
    SomeEmits stages i ∧ ∀ j, SomeEmits rest.allStages j → SomeEmits stages j := by
  induction stages with
  | nil => cases h
  | cons stage stages ih =>
    cases stage with
    | emit k =>
      cases h
      exact ⟨⟨.emit i, List.mem_cons_self, rfl⟩, fun j hj => hj.cons _⟩
    | deferred f =>
      rw [nextOf] at h
      split at h
      · -- a stage that gives nothing on this ledger is passed over
        obtain ⟨hi, hrest⟩ := ih h
        exact ⟨hi.cons _, fun j hj => (hrest j hj).cons _⟩
      · next k is hf =>
        cases h
        refine ⟨⟨.deferred f, List.mem_cons_self, l, hf ▸ List.mem_cons_self⟩, ?_⟩
        rintro j ⟨stage, hmem, hj⟩
        rcases List.mem_append.mp hmem with hpending | hstage
        · obtain ⟨j', hj', rfl⟩ := List.mem_map.mp hpending
          obtain rfl : j = j' := hj
          exact ⟨.deferred f, List.mem_cons_self, l, hf ▸ List.mem_cons_of_mem _ hj'⟩
        · exact ⟨stage, List.mem_cons_of_mem _ hstage, hj⟩

theorem next_emits {l : Ledger α} {s rest : Synthesis α} {i : Instruction α}
    (h : s.next l = some (i, rest)) :
    SomeEmits s.allStages i ∧ ∀ j, SomeEmits rest.allStages j → SomeEmits s.allStages j := by
  obtain ⟨stages, pending⟩ := s
  cases pending with
  | nil => exact nextOf_emits h
  | cons k is =>
    cases h
    exact ⟨⟨.emit i, List.mem_cons_self, rfl⟩, fun j hj => hj.cons _⟩

/-- **What a synthesis can give** is pending or comes from one of its stages. -/
theorem CanEmit.mem {s : Synthesis α} {i : Instruction α} (h : s.CanEmit i) :
    SomeEmits s.allStages i := by
  induction h with
  | now l h => exact (next_emits h).1
  | later l h _ ih => exact (next_emits h).2 _ ih

theorem canEmit_of_mem_pending {stages : List (Stage α)} {is : List (Instruction α)}
    {i : Instruction α} (h : i ∈ is) : (⟨stages, is⟩ : Synthesis α).CanEmit i := by
  induction is with
  | nil => cases h
  | cons j is ih =>
    rcases List.mem_cons.mp h with rfl | h
    · exact .now ∅ rfl
    · exact .later ∅ rfl (ih h)

/-- What is pending does not keep the stages from being reached. -/
theorem CanEmit.behind {stages : List (Stage α)} {i : Instruction α}
    (h : (⟨stages, []⟩ : Synthesis α).CanEmit i) (is : List (Instruction α)) :
    (⟨stages, is⟩ : Synthesis α).CanEmit i := by
  induction is with
  | nil => exact h
  | cons j is ih => exact .later ∅ rfl ih

theorem SomeEmits.canEmit {stages : List (Stage α)} {i : Instruction α} (h : SomeEmits stages i) :
    (⟨stages, []⟩ : Synthesis α).CanEmit i := by
  obtain ⟨stage, hmem, hi⟩ := h
  induction stages with
  | nil => cases hmem
  | cons first stages ih =>
    rcases List.mem_cons.mp hmem with rfl | hmem
    · cases stage with
      | emit j =>
        obtain rfl : i = j := hi
        exact .now ∅ rfl
      | deferred f =>
        obtain ⟨l, hl⟩ := hi
        cases hf : f l with
        | nil =>
          rw [hf] at hl
          cases hl
        | cons k is =>
          have hnext : (⟨.deferred f :: stages, []⟩ : Synthesis α).next l = some (k, ⟨stages, is⟩) := by
            rw [next, nextOf, hf]
          rw [hf] at hl
          rcases List.mem_cons.mp hl with rfl | hl
          · exact .now l hnext
          · exact .later l hnext (canEmit_of_mem_pending hl)
    · have hrest := ih hmem
      cases first with
      | emit j => exact .later ∅ rfl hrest
      | deferred f =>
        -- the first stage gives nothing on the ledger that the others meet, or it is used up there
        have hfirst : ∀ (l : Ledger α) (found : Instruction α × Synthesis α),
            nextOf l stages = some found → f l = [] →
            (⟨.deferred f :: stages, []⟩ : Synthesis α).next l = some found := by
          intro l found hfound hf
          rw [next, nextOf, hf]
          exact hfound
        have hused : ∀ (l : Ledger α) (k : Instruction α) (is : List (Instruction α)),
            f l = k :: is → (⟨.deferred f :: stages, []⟩ : Synthesis α).CanEmit i := by
          intro l k is hf
          have hnext : (⟨.deferred f :: stages, []⟩ : Synthesis α).next l =
              some (k, ⟨stages, is⟩) := by
            rw [next, nextOf, hf]
          exact .later l hnext (hrest.behind is)
        cases id hrest with
        | now l hnext =>
          cases hf : f l with
          | nil => exact .now l (hfirst l _ hnext hf)
          | cons k is => exact hused l k is hf
        | later l hnext hlater =>
          cases hf : f l with
          | nil => exact .later l (hfirst l _ hnext hf) hlater
          | cons k is => exact hused l k is hf

/-- **What a synthesis can give** is what is pending and what its stages can give. -/
theorem canEmit_iff {s : Synthesis α} {i : Instruction α} :
    s.CanEmit i ↔ SomeEmits s.allStages i := by
  refine ⟨CanEmit.mem, ?_⟩
  rintro ⟨stage, hmem, hi⟩
  rcases List.mem_append.mp hmem with hpending | hstage
  · obtain ⟨j, hj, rfl⟩ := List.mem_map.mp hpending
    obtain rfl : i = j := hi
    exact canEmit_of_mem_pending hj
  · exact (SomeEmits.canEmit ⟨stage, hstage, hi⟩).behind s.pending

end Synthesis

end PulseControl
