import PulseControl.Proofs.Lowering.Calls
import PulseControl.Proofs.Schedule.Commit

/-!
# Calls one after the other

Calls that are lowered into one ledger, each with a lowerer of its own, leave together one long list of
instructions: the marker of every call and its expansion behind it. What stands behind the markers of this
record, and the blocks that it comes in, are those of the expansions.

* `PulseControl.Lowerer.lowerEach` – the ledger after calls one after the other;
* `PulseControl.Lowerer.Succession` – the record of calls that have all succeeded;
* `PulseControl.Lowerer.exists_succession` – there is one;
* `PulseControl.Lowerer.Succession.unfolds`, `PulseControl.Lowerer.Succession.inBlocks` – its markers and
  its blocks.
-/

namespace PulseControl

namespace Lowerer

variable {α : Type} [Scalar α]

/-- **The ledger after calls one after the other**, if all of them succeed. -/
def lowerEach : List (Lowerer α × GateCall α) → Ledger α → Except (GateError α) (Ledger α)
  | [], ledger => .ok ledger
  | (l, call) :: runs, ledger => do
    let (_, ledger) ← l.lowerInto call ledger
    lowerEach runs ledger

/-- **The record of calls that have all succeeded**: each gives what is shown of its expansion, on the
ledger that the calls before it leave. -/
inductive Succession :
    List (Lowerer α × GateCall α) → Ledger α → List (Instruction α) → Ledger α → Prop where
  | nil (ledger : Ledger α) : Succession [] ledger [] ledger
  | cons {l : Lowerer α} {call : GateCall α} {runs : List (Lowerer α × GateCall α)}
    {is js : List (Instruction α)} {ledger middle final : Ledger α} :
    l.lowerInto call ledger = .ok (l.options.shown is, middle) →
    l.Expansion call ledger is middle → Succession runs middle js final →
    Succession ((l, call) :: runs) ledger (.expand call :: (is ++ js)) final

variable {l : Lowerer α} {call : GateCall α} {runs : List (Lowerer α × GateCall α)}
  {is : List (Instruction α)} {ledger final : Ledger α}

/-- A call that succeeds gives what is shown of its expansion. -/
theorem expansion_of_lowerInto (h : l.lowerInto call ledger = .ok (is, final)) :
    ∃ js, is = l.options.shown js ∧ l.Expansion call ledger js final := by
  cases hlower : l.lower call ledger with
  | error e => cases (lowerInto_of_lower_error hlower).symm.trans h
  | ok first =>
    cases herror : first.drain.error? with
    | some e => cases (lowerInto_of_drain_error hlower herror).symm.trans h
    | none =>
      cases (lowerInto_of_drain hlower herror).symm.trans h
      obtain ⟨js, hexp, hshown⟩ := shown_expansion_of_lower hlower herror
      rw [hexp.final_eq] at hexp
      refine ⟨js, hshown, ?_⟩
      rwa [hshown, Ledger.applyAll_shown]

/-- **Calls that have all succeeded have a record.** -/
theorem exists_succession (h : lowerEach runs ledger = .ok final) :
    ∃ is, Succession runs ledger is final := by
  induction runs generalizing ledger with
  | nil =>
    cases h
    exact ⟨[], .nil _⟩
  | cons run runs ih =>
    obtain ⟨l, call⟩ := run
    obtain ⟨⟨shown, middle⟩, hinto, hrest⟩ := Except.bind_eq_ok.mp h
    obtain ⟨is, rfl, hexp⟩ := expansion_of_lowerInto hinto
    obtain ⟨js, hjs⟩ := ih hrest
    exact ⟨_, .cons hinto hexp hjs⟩

/-- The ledger in the end is what the record makes of the one at the beginning. -/
theorem Succession.final_eq (h : Succession runs ledger is final) : final = ledger.applyAll is := by
  induction h with
  | nil => rfl
  | cons _ hexp _ ih =>
    rw [Ledger.applyAll_cons, Ledger.applyAll_append, ih, hexp.final_eq]
    rfl

/-- **What stands behind a marker of the record** is an expansion of its call, by the lowerer of one of the
calls. -/
theorem Succession.unfolds (h : Succession runs ledger is final) :
    ledger.Followed (Unfolds (runs.map Prod.fst)) is := by
  induction h with
  | nil ledger => exact Ledger.followed_nil ledger
  | @cons l call runs is js ledger middle final _ hexp _ ih =>
    rw [hexp.final_eq] at ih
    have hfirst : ledger.Followed (Unfolds (((l, call) :: runs).map Prod.fst)) is :=
      hexp.unfolds.mono fun there i inner hi => hi.mono (by simp)
    have hrest : (ledger.applyAll is).Followed (Unfolds (((l, call) :: runs).map Prod.fst)) js :=
      ih.mono fun there i inner hi => hi.mono fun _ hl => List.mem_cons_of_mem _ hl
    refine ⟨⟨is, js, rfl, fun x hx => ?_⟩, hfirst.append hrest⟩
    cases hx
    exact ⟨l, List.mem_cons_self, middle, hexp⟩

/-- **The record comes in blocks**: markers, and the blocks of the gates of the calls in it. -/
theorem Succession.inBlocks {B : Ledger α → List (Instruction α) → Prop} {C : GateCall α → Prop}
    (hB : ∀ run ∈ runs, run.1.GivesBlocks C B) (hmarker : ∀ x ledger, B ledger [.expand x])
    (h : Succession runs ledger is final) (hC : ∀ x, .expand x ∈ is → C x) : ledger.InBlocks B is := by
  induction h with
  | nil ledger => exact .nil ledger
  | @cons l call runs is js ledger middle final _ hexp _ ih =>
    obtain ⟨hfirst, hrest⟩ := List.forall_mem_cons.mp hB
    have his := hexp.inBlocks hfirst (hC call List.mem_cons_self) fun x hx =>
      hC x (List.mem_cons_of_mem _ (List.mem_append_left _ hx))
    have hjs := ih hrest fun x hx => hC x (List.mem_cons_of_mem _ (List.mem_append_right _ hx))
    rw [hexp.final_eq] at hjs
    exact .cons (hmarker call ledger) (his.append hjs)

end Lowerer

end PulseControl
