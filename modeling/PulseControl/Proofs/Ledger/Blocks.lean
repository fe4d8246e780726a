import PulseControl.Ledger

/-!
# Instructions one after the other

Instructions come together from parts: those of one call behind those of another, those of one stage behind
those before it. What is told of a part is told on the ledger that the part meets, and what is true of two
parts in succession should be true of both together. Here are two ways to tell such things.

* `PulseControl.Ledger.InBlocks` – instructions in blocks with a property;
* `PulseControl.Ledger.InBlocks.join` – a property that two blocks in succession have together;
* `PulseControl.Ledger.Followed` – every instruction is followed by what belongs to it.
-/

namespace PulseControl.Ledger

variable {α : Type} {ledger : Ledger α} {i : Instruction α} {is js : List (Instruction α)}

/-! ### Blocks -/

section Blocks

variable {B : Ledger α → List (Instruction α) → Prop}

/-- **Instructions in blocks**, each of which has a property on the ledger that it meets. -/
inductive InBlocks (B : Ledger α → List (Instruction α) → Prop) :
    Ledger α → List (Instruction α) → Prop where
  | nil (ledger : Ledger α) : InBlocks B ledger []
  | block {ledger : Ledger α} {is js : List (Instruction α)} : B ledger is →
    InBlocks B (ledger.applyAll is) js → InBlocks B ledger (is ++ js)

theorem InBlocks.cons (h : B ledger [i]) (h' : (ledger.apply i).InBlocks B is) :
    ledger.InBlocks B (i :: is) :=
  .block h h'

theorem InBlocks.append (h : ledger.InBlocks B is) (h' : (ledger.applyAll is).InBlocks B js) :
    ledger.InBlocks B (is ++ js) := by
  induction h with
  | nil => exact h'
  | block hblock _ ih =>
    rw [List.append_assoc]
    refine .block hblock (ih ?_)
    rwa [← applyAll_append]

/-- A property of blocks that two blocks in succession have together is one of all instructions. -/
theorem InBlocks.join (h : ledger.InBlocks B is) (hnil : ∀ l, B l [])
    (happend : ∀ l is js, B l is → B (l.applyAll is) js → B l (is ++ js)) : B ledger is := by
  induction h with
  | nil ledger => exact hnil ledger
  | block hblock _ ih => exact happend _ _ _ hblock ih

end Blocks

/-! ### What follows an instruction -/

section Follow

variable {E E' : Ledger α → Instruction α → List (Instruction α) → Prop}

/-- **Every instruction is followed by what belongs to it** on the ledger that it meets. -/
def Followed (E : Ledger α → Instruction α → List (Instruction α) → Prop) :
    Ledger α → List (Instruction α) → Prop
  | _, [] => True
  | l, i :: is => (∃ inner rest, is = inner ++ rest ∧ E l i inner) ∧ Followed E (l.apply i) is

theorem followed_nil (l : Ledger α) : l.Followed E [] := trivial

/-- An instruction to which nothing belongs. -/
theorem Followed.cons (hi : E ledger i []) (h : (ledger.apply i).Followed E is) :
    ledger.Followed E (i :: is) :=
  ⟨⟨[], is, rfl, hi⟩, h⟩

/-- Instructions to none of which anything belongs. -/
theorem followed_of_forall (h : ∀ i ∈ is, ∀ l, E l i []) (ledger : Ledger α) : ledger.Followed E is := by
  induction is generalizing ledger with
  | nil => trivial
  | cons i is ih =>
    obtain ⟨hi, his⟩ := List.forall_mem_cons.mp h
    exact .cons (hi ledger) (ih his _)

theorem Followed.append (h : ledger.Followed E is) (h' : (ledger.applyAll is).Followed E js) :
    ledger.Followed E (is ++ js) := by
  induction is generalizing ledger with
  | nil => exact h'
  | cons i is ih =>
    obtain ⟨⟨inner, rest, rfl, hi⟩, htail⟩ := h
    exact ⟨⟨inner, rest ++ js, List.append_assoc .., hi⟩, ih htail h'⟩

theorem Followed.mono (h : ledger.Followed E is) (hle : ∀ l i inner, E l i inner → E' l i inner) :
    ledger.Followed E' is := by
  induction is generalizing ledger with
  | nil => trivial
  | cons i is ih =>
    obtain ⟨⟨inner, rest, his, hi⟩, htail⟩ := h
    exact ⟨⟨inner, rest, his, hle _ _ _ hi⟩, ih htail⟩

/-- The same, said of a place among the instructions. -/
theorem Followed.at_split {before after : List (Instruction α)}
    (h : ledger.Followed E (before ++ i :: after)) :
    ∃ inner rest, after = inner ++ rest ∧ E (ledger.applyAll before) i inner := by
  induction before generalizing ledger with
  | nil => exact h.1
  | cons j before ih => exact ih h.2

end Follow

end PulseControl.Ledger
