import PulseControl.Proofs.Gate.Signature
import PulseControl.Proofs.Ledger.Blocks
import PulseControl.Proofs.Lowering.Markers

/-!
# The calls of an expansion

Three things that are true of every expansion, whatever the gates do. The calls whose markers come in it
have passed the same checks as the call at the top, because they are all in the tree that was planned.
What stands behind a marker is the expansion of its call on the ledger at that place. And the
instructions come in blocks: a block is a fixed instruction or all that one stage has computed, and no
gate is expanded inside of it.

* `PulseControl.Lowerer.Planned` – a call whose checks succeed all the way down;
* `PulseControl.Lowerer.Expands.unfolds` – what stands behind a marker;
* `PulseControl.Lowerer.Inherited` – what is true of a call and of all calls below it;
* `PulseControl.Lowerer.Expands.inBlocks` – the blocks of an expansion.
-/

namespace PulseControl

variable {α : Type}

/-! ### Blocks of stages -/

/-- What a stage gives on a ledger. -/
def Stage.block : Stage α → Ledger α → List (Instruction α)
  | .emit i, _ => [i]
  | .deferred f, ledger => f ledger

/-- The blocks of a stage have a property, and none that is computed has a marker in it. -/
def Stage.GivesBlocks (B : Ledger α → List (Instruction α) → Prop) (stage : Stage α) : Prop :=
  ∀ ledger, B ledger (stage.block ledger) ∧
    ∀ f, stage = .deferred f → Instruction.Plain (f ledger)

/-! ### Calls below a call -/

/-- A call is reached from another one: it is this call, or a step of a call that is reached. -/
def Registry.Reaches [Scalar α] (r : Registry α) : GateCall α → GateCall α → Prop :=
  Relation.ReflTransGen fun call x => ∃ d, r.get? call.key = some d ∧ d.Declares call x

namespace Lowerer

variable [Scalar α] {l : Lowerer α} {call x : GateCall α} {params : Params α} {s : Synthesis α}
  {stages : List (Stage α)} {is : List (Instruction α)} {ledger final : Ledger α}

/-- **A call whose checks succeed all the way down.** -/
def Planned (l : Lowerer α) (call : GateCall α) : Prop :=
  ∃ room visits, l.treePlan room call = .ok visits

/-- A call that is accepted is planned. -/
theorem planned_of_lower {first : Lowering α} (h : l.lower call ledger = .ok first) :
    l.Planned call := by
  obtain ⟨plan, hplan, -⟩ := lower_eq_ok.mp h
  obtain ⟨visits, hv, -⟩ := plan_eq_ok.mp hplan
  exact ⟨_, visits, hv⟩

/-- The call of a planned gate has been checked. -/
theorem Planned.checked (h : l.Planned call) :
    ∃ definition, l.registry.checkCall call = .ok definition := by
  obtain ⟨room, visits, hv⟩ := h
  obtain ⟨room, rfl⟩ := exists_room_of_treePlan hv
  obtain ⟨definition, -, -, hd, -⟩ := treePlan_succ_eq_ok.mp hv
  exact ⟨definition, hd⟩

/-- The targets of a planned call are all different. -/
theorem Planned.nodup (h : l.Planned call) : call.targets.Nodup := by
  obtain ⟨definition, hd⟩ := h.checked
  exact (Signature.check_eq_ok.mp (Registry.checkCall_eq_ok.mp hd).2).2.1

/-- What a planned gate declares is planned. -/
theorem Planned.declared (h : l.Planned call) {definition : GateDefinition α}
    (hd : l.registry.get? call.key = some definition) (hx : definition.Declares call x) :
    l.Planned x := by
  obtain ⟨room, visits, hv⟩ := h
  obtain ⟨room, rfl⟩ := exists_room_of_treePlan hv
  obtain ⟨definition', params, below, hd', -, -, hbelow, rfl⟩ := treePlan_succ_eq_ok.mp hv
  cases hd.symm.trans (Registry.checkCall_eq_ok.mp hd').1
  obtain ⟨step, hstep, hbind⟩ := hx
  obtain ⟨inner, -, htree⟩ := Except.exists_of_mem_mapM hbelow hstep
  rw [hbind, Except.bind_ok] at htree
  exact ⟨room, inner, htree⟩

/-- **What is true of a call and of all calls below it**: every marker that the synthesis of such a call
can give names a call of the same kind. -/
def Inherited (l : Lowerer α) (C : GateCall α → Prop) : Prop :=
  ∀ call params s x, C call → l.resolve call.slot = .ok params →
    l.registry.synthesize call params = .ok s → s.CanEmit (.expand x) → C x

theorem Inherited.and {C D : GateCall α → Prop} (hC : l.Inherited C) (hD : l.Inherited D) :
    l.Inherited fun call => C call ∧ D call :=
  fun call params s x hcall hres hs hx =>
    ⟨hC call params s x hcall.1 hres hs hx, hD call params s x hcall.2 hres hs hx⟩

/-- **A lowerer gives blocks with a property** for the calls of a kind: each synthesis of such a call
begins with nothing pending, and its stages give such blocks. -/
def GivesBlocks (l : Lowerer α) (C : GateCall α → Prop)
    (B : Ledger α → List (Instruction α) → Prop) : Prop :=
  ∀ call params s, C call → l.resolve call.slot = .ok params →
    l.registry.synthesize call params = .ok s →
    s.pending = [] ∧ ∀ stage ∈ s.stages, stage.GivesBlocks B

/-- A synthesis is that of a registered gate, and its markers are declared where the registry is
well-declared. -/
theorem declares_of_canEmit (hdecl : l.registry.WellDeclared) (hres : l.resolve call.slot = .ok params)
    (hs : l.registry.synthesize call params = .ok s) (hx : s.CanEmit (.expand x)) :
    ∃ definition, l.registry.get? call.key = some definition ∧ definition.Declares call x := by
  obtain ⟨definition, hget, -⟩ := Except.bind_eq_ok.mp (id hs)
  have hd := Registry.get_eq_ok.mp hget
  exact ⟨definition, hd, hdecl.declares hd hres hs hx⟩

/-- **The calls below a planned call are planned.** -/
theorem planned_inherited (hdecl : l.registry.WellDeclared) : l.Inherited l.Planned := by
  intro call params s x hcall hres hs hx
  obtain ⟨definition, hd, hdeclares⟩ := declares_of_canEmit hdecl hres hs hx
  exact hcall.declared hd hdeclares

/-- **The calls that are reached** from a call of a kind are of that kind. -/
theorem reaches_inherited (hdecl : l.registry.WellDeclared) (call : GateCall α) :
    l.Inherited (l.registry.Reaches call) := by
  intro x params s y hx hres hs hy
  exact hx.tail (declares_of_canEmit hdecl hres hs hy)

/-! ### Expansions -/

/-- The last ledger of an expansion is what its instructions make of the first. -/
theorem Expands.final_eq (h : l.Expands stages ledger is final) : final = ledger.applyAll is := by
  induction h with
  | done => rfl
  | plain _ _ ih => exact ih
  | deferred _ ih => exact ih
  | marker _ _ _ _ ihinner ih =>
    rw [List.cons_append, Ledger.applyAll_cons, Ledger.applyAll_append, ih, ihinner]
    rfl

/-- One stage that computes no marker stands for what it gives. -/
theorem expands_defer {f : Ledger α → List (Instruction α)} (hplain : Instruction.Plain (f ledger)) :
    l.Expands (Synthesis.defer f).allStages ledger (f ledger) (ledger.applyAll (f ledger)) := by
  have hstage : l.Expands [.deferred f] ledger (f ledger) (ledger.applyAll (f ledger)) := by
    refine .deferred ?_
    rw [List.append_nil]
    exact expands_of_plain hplain ledger
  exact hstage

/-- One stage that computes no marker stands for nothing else. -/
theorem Expands.of_defer {f : Ledger α → List (Instruction α)} (hplain : Instruction.Plain (f ledger))
    (h : l.Expands (Synthesis.defer f).allStages ledger is final) : is = f ledger :=
  (h.deterministic (expands_defer hplain)).1

/-- **What belongs to a marker** is an expansion of its call, by one of some lowerers. -/
def Unfolds (ls : List (Lowerer α)) (there : Ledger α) (i : Instruction α)
    (inner : List (Instruction α)) : Prop :=
  ∀ x, i = .expand x → ∃ l ∈ ls, ∃ middle, l.Expansion x there inner middle

theorem Unfolds.mono {ls ls' : List (Lowerer α)} {i : Instruction α} (h : Unfolds ls ledger i is)
    (hle : ∀ l ∈ ls, l ∈ ls') : Unfolds ls' ledger i is := by
  intro x hx
  obtain ⟨l, hl, hexp⟩ := h x hx
  exact ⟨l, hle l hl, hexp⟩

/-- **What stands behind a marker** is the expansion of its call, on the ledger at that place. -/
theorem Expands.unfolds (h : l.Expands stages ledger is final) : ledger.Followed (Unfolds [l]) is := by
  induction h with
  | done ledger => exact Ledger.followed_nil ledger
  | plain hi _ ih =>
    refine .cons (fun x hx => ?_) ih
    rw [hx] at hi
    cases hi
  | deferred _ ih => exact ih
  | @marker call params s stages inner is ledger middle final hres hs hinner _ ihinner ih =>
    rw [hinner.final_eq] at ih
    refine ⟨⟨inner, is, rfl, fun x hx => ?_⟩, ihinner.append ih⟩
    cases hx
    exact ⟨l, List.mem_singleton_self l, middle, params, s, hres, hs, hinner⟩

/-- **The calls below a call** are of its kind, where that is inherited. -/
theorem Expands.inherits {C : GateCall α → Prop} (hC : l.Inherited C)
    (h : l.Expands stages ledger is final)
    (hstages : ∀ stage ∈ stages, ∀ x, stage.CanEmit (.expand x) → C x) :
    ∀ x, .expand x ∈ is → C x := by
  induction h with
  | done =>
    intro x hx
    cases hx
  | plain hi _ ih =>
    intro x hx
    rcases List.mem_cons.mp hx with rfl | hx
    · cases hi
    · exact ih (List.forall_mem_cons.mp hstages).2 x hx
  | @deferred f stages is ledger final _ ih =>
    obtain ⟨hfirst, hrest⟩ := List.forall_mem_cons.mp hstages
    refine ih (List.forall_mem_append.mpr ⟨fun stage hmem x hx => ?_, hrest⟩)
    obtain ⟨i, hi, rfl⟩ := List.mem_map.mp hmem
    obtain rfl : .expand x = i := hx
    exact hfirst x ⟨ledger, hi⟩
  | @marker call params s stages inner is ledger middle final hres hs _ _ ihinner ih =>
    obtain ⟨hfirst, hrest⟩ := List.forall_mem_cons.mp hstages
    have hcall : C call := hfirst call rfl
    intro x hx
    rcases List.mem_cons.mp hx with hx | hx
    · cases hx
      exact hcall
    · rcases List.mem_append.mp hx with hx | hx
      · refine ihinner (fun stage hmem y hy => ?_) x hx
        exact hC call params s y hcall hres hs (Synthesis.canEmit_iff.mpr ⟨stage, hmem, hy⟩)
      · exact ih hrest x hx

/-- What holds of the blocks of every gate that comes holds of the blocks of what these gates give
together. What is pending of the first block is left out. -/
theorem Expands.inBlocks {B : Ledger α → List (Instruction α) → Prop} {C : GateCall α → Prop}
    (hB : l.GivesBlocks C B) (h : l.Expands stages ledger is final)
    (hC : ∀ x, .expand x ∈ is → C x) {pending : List (Instruction α)} {rest : List (Stage α)}
    (hstages : stages = pending.map .emit ++ rest) (hplain : Instruction.Plain pending)
    (hrest : ∀ stage ∈ rest, stage.GivesBlocks B) :
    ∃ js, is = pending ++ js ∧ (ledger.applyAll pending).InBlocks B js := by
  induction h generalizing pending rest with
  | done ledger =>
    obtain ⟨hpending, rfl⟩ := List.append_eq_nil_iff.mp hstages.symm
    obtain rfl := List.map_eq_nil_iff.mp hpending
    exact ⟨[], rfl, .nil ledger⟩
  | @plain i stages is ledger final hi _ ih =>
    have hbelow : ∀ x, .expand x ∈ is → C x := fun x hx => hC x (List.mem_cons_of_mem _ hx)
    cases pending with
    | nil =>
      subst hstages
      obtain ⟨hfirst, hrest⟩ := List.forall_mem_cons.mp hrest
      obtain ⟨js, his, hjs⟩ := ih hbelow (by rfl) hplain hrest
      exact ⟨i :: js, congrArg (i :: ·) his, .cons (hfirst ledger).1 hjs⟩
    | cons j pending =>
      obtain ⟨hij, rfl⟩ := List.cons.inj hstages
      cases hij
      obtain ⟨js, rfl, hjs⟩ := ih hbelow rfl (List.forall_mem_cons.mp hplain).2 hrest
      exact ⟨js, rfl, hjs⟩
  | @deferred f stages is ledger final _ ih =>
    cases pending with
    | nil =>
      subst hstages
      obtain ⟨hfirst, hrest⟩ := List.forall_mem_cons.mp hrest
      obtain ⟨js, rfl, hjs⟩ := ih hC rfl ((hfirst ledger).2 f rfl) hrest
      exact ⟨f ledger ++ js, rfl, .block (hfirst ledger).1 hjs⟩
    | cons j pending => cases (List.cons.inj hstages).1
  | @marker call params s stages inner is ledger middle final hres hs hinner _ ihinner ih =>
    cases pending with
    | nil =>
      subst hstages
      obtain ⟨hfirst, hrest⟩ := List.forall_mem_cons.mp hrest
      obtain ⟨hpending, hgives⟩ := hB call params s (hC call List.mem_cons_self) hres hs
      have hall : s.allStages = s.stages := Synthesis.allStages_of_pending hpending
      obtain ⟨js, hinnerblocks, hjs⟩ := ihinner (fun x hx => hC x
        (List.mem_cons_of_mem _ (List.mem_append_left _ hx))) (by exact hall) hplain hgives
      obtain ⟨ks, hrestblocks, hks⟩ := ih (fun x hx => hC x
        (List.mem_cons_of_mem _ (List.mem_append_right _ hx))) (by rfl) hplain hrest
      rw [List.nil_append] at hinnerblocks hrestblocks
      subst hinnerblocks hrestblocks
      rw [hinner.final_eq] at hks
      exact ⟨_, rfl, .cons (hfirst ledger).1 (hjs.append hks)⟩
    | cons j pending =>
      obtain ⟨hj, -⟩ := List.cons.inj hstages
      cases hj
      cases hplain _ List.mem_cons_self

/-- A gate whose synthesis is one stage without markers expands to what the stage gives. -/
theorem expansion_of_defer {f : Ledger α → List (Instruction α)} (hres : l.resolve call.slot = .ok params)
    (hs : l.registry.synthesize call params = .ok (.defer f)) (hplain : Instruction.Plain (f ledger)) :
    l.Expansion call ledger (f ledger) (ledger.applyAll (f ledger)) :=
  ⟨params, _, hres, hs, expands_defer hplain⟩

theorem Expansion.final_eq (h : l.Expansion call ledger is final) : final = ledger.applyAll is := by
  obtain ⟨params, s, -, -, hexpands⟩ := h
  exact hexpands.final_eq

theorem Expansion.unfolds (h : l.Expansion call ledger is final) :
    ledger.Followed (Unfolds [l]) is := by
  obtain ⟨params, s, -, -, hexpands⟩ := h
  exact hexpands.unfolds

/-- **The calls in an expansion** are of the kind of its call, where that is inherited. -/
theorem Expansion.inherits {C : GateCall α → Prop} (hC : l.Inherited C)
    (h : l.Expansion call ledger is final) (hcall : C call) : ∀ x, .expand x ∈ is → C x := by
  obtain ⟨params, s, hres, hs, hexpands⟩ := h
  exact hexpands.inherits hC fun stage hmem x hx =>
    hC call params s x hcall hres hs (Synthesis.canEmit_iff.mpr ⟨stage, hmem, hx⟩)

/-- **An expansion comes in blocks**, those of the gates of the calls that come in it. -/
theorem Expansion.inBlocks {B : Ledger α → List (Instruction α) → Prop} {C : GateCall α → Prop}
    (hB : l.GivesBlocks C B) (h : l.Expansion call ledger is final) (hcall : C call)
    (hC : ∀ x, .expand x ∈ is → C x) : ledger.InBlocks B is := by
  obtain ⟨params, s, hres, hs, hexpands⟩ := h
  obtain ⟨hpending, hgives⟩ := hB call params s hcall hres hs
  have hall : s.allStages = s.stages := Synthesis.allStages_of_pending hpending
  have hplain : Instruction.Plain ([] : List (Instruction α)) := List.forall_mem_nil _
  obtain ⟨js, his, hjs⟩ := hexpands.inBlocks hB hC (by exact hall) hplain hgives
  rw [his]
  exact hjs

end Lowerer

end PulseControl
