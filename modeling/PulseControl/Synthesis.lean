import PulseControl.Ledger

/-!
# Syntheses

A synthesis is an instruction sequence that is produced one by one. Some of its stages are fixed, others
look at the ledger at the moment they are reached, after everything before them has taken effect.

* `PulseControl.Synthesis.next` – the next instruction and what is left;
* `PulseControl.Synthesis.run` – all instructions, each applied before the next is produced;
* `PulseControl.Synthesis.chain` – one synthesis after the other.
-/

namespace PulseControl

/-- A part of a synthesis. -/
inductive Stage (α : Type) where
  /-- A fixed instruction. -/
  | emit (instruction : Instruction α)
  /-- Instructions that depend on the ledger. -/
  | deferred (instructions : Ledger α → List (Instruction α))

/-- An instruction sequence under production. -/
structure Synthesis (α : Type) where
  /-- The stages that have not been reached. -/
  stages : List (Stage α)
  /-- What the deferred stage reached last has still to give. -/
  pending : List (Instruction α)

namespace Synthesis

variable {α : Type}

instance : EmptyCollection (Synthesis α) := ⟨⟨[], []⟩⟩
instance : Inhabited (Synthesis α) := ⟨∅⟩

/-- The synthesis with a fixed instruction behind it. -/
def emit (s : Synthesis α) (i : Instruction α) : Synthesis α :=
  { s with stages := s.stages ++ [.emit i] }

/-- The synthesis with a stage behind it that looks at the ledger. -/
def andThen (s : Synthesis α) (f : Ledger α → List (Instruction α)) : Synthesis α :=
  { s with stages := s.stages ++ [.deferred f] }

/-- A synthesis of one stage that looks at the ledger. -/
def defer (f : Ledger α → List (Instruction α)) : Synthesis α := ⟨[.deferred f], []⟩

/-- **One synthesis after the other**. What the second has already computed becomes fixed stages. -/
def chain (s t : Synthesis α) : Synthesis α :=
  { s with stages := s.stages ++ (t.pending.map .emit ++ t.stages) }

/-- The number of stages that have not been reached. -/
def remainingStages (s : Synthesis α) : Nat := s.stages.length

/-- Whether nothing is left. -/
def isExhausted (s : Synthesis α) : Bool := s.pending.isEmpty && s.stages.isEmpty

/-- The first instruction of some stages on a ledger, and what is left after it. -/
def nextOf (l : Ledger α) : List (Stage α) → Option (Instruction α × Synthesis α)
  | [] => none
  | .emit i :: rest => some (i, ⟨rest, []⟩)
  | .deferred f :: rest =>
    match f l with
    | [] => nextOf l rest
    | i :: is => some (i, ⟨rest, is⟩)

/-- **The next instruction** on a ledger, and what is left after it. -/
def next (s : Synthesis α) (l : Ledger α) : Option (Instruction α × Synthesis α) :=
  match s.pending with
  | i :: is => some (i, ⟨s.stages, is⟩)
  | [] => nextOf l s.stages

/-- All instructions of some stages, from a ledger on, with the ledger that they leave. -/
def runStages : List (Stage α) → Ledger α → List (Instruction α) × Ledger α
  | [], l => ([], l)
  | .emit i :: rest, l =>
    let (is, l') := runStages rest (l.apply i)
    (i :: is, l')
  | .deferred f :: rest, l =>
    let (is, l') := runStages rest (l.applyAll (f l))
    (f l ++ is, l')

/-- **All instructions** from a ledger on, with the ledger that they leave. Markers are listed and not
expanded. -/
def run (s : Synthesis α) (l : Ledger α) : List (Instruction α) × Ledger α :=
  let (is, l') := runStages s.stages (l.applyAll s.pending)
  (s.pending ++ is, l')

/-- How much of a synthesis is left, stages before pending instructions. -/
def measure (s : Synthesis α) : Nat × Nat := (s.stages.length, s.pending.length)

theorem nextOf_length {l : Ledger α} {stages : List (Stage α)} {i : Instruction α}
    {s : Synthesis α} (h : nextOf l stages = some (i, s)) : s.stages.length < stages.length := by
  induction stages with
  | nil => cases h
  | cons stage rest ih =>
    cases stage with
    | emit j =>
      rw [nextOf] at h
      cases h
      exact Nat.lt_succ_self _
    | deferred f =>
      rw [nextOf] at h
      split at h
      · exact Nat.lt_succ_of_lt (ih h)
      · cases h
        exact Nat.lt_succ_self _

/-- **Producing an instruction uses up a synthesis**: a stage, or a pending instruction. -/
theorem measure_next {s t : Synthesis α} {l : Ledger α} {i : Instruction α}
    (h : s.next l = some (i, t)) : Prod.Lex (· < ·) (· < ·) t.measure s.measure := by
  obtain ⟨stages, pending⟩ := s
  cases pending with
  | cons j js =>
    cases h
    exact Prod.Lex.right _ (Nat.lt_succ_self _)
  | nil => exact Prod.Lex.left _ _ (nextOf_length h)

end Synthesis

end PulseControl
