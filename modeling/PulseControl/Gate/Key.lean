import Std.Data.ExtTreeMap

/-!
# Gate keys

A gate is known by a name and, where there are variants, a qualifier. A slot is a gate on given
targets: the place to which calibrated parameters belong.

* `PulseControl.GateKey`, `PulseControl.Slot` – with the orders in which listings show them.
-/

namespace PulseControl

/-- A qubit or a coupling element, known by its name. -/
abbrev Qubit := String

/-- The name of a gate and of the variant, if it is one. -/
structure GateKey where
  name : String
  qualifier : Option String
  deriving DecidableEq, Repr, Inhabited

namespace GateKey

/-- The key of a gate without variants. -/
def plain (name : String) : GateKey := ⟨name, none⟩

/-- The text of a key. -/
def text (k : GateKey) : String :=
  match k.qualifier with
  | some q => k.name ++ ":" ++ q
  | none => k.name

/-- Keys are ordered by name, then by qualifier, a key without one coming first. -/
instance : Ord GateKey := ⟨compareLex (compareOn name) (compareOn qualifier)⟩

instance : Std.TransOrd GateKey :=
  inferInstanceAs (Std.TransCmp (compareLex (compareOn name) (compareOn qualifier)))

instance : Std.LawfulEqOrd GateKey where
  eq_of_compare {a b} h := by
    obtain ⟨h₁, h₂⟩ := Ordering.then_eq_eq.mp (show (compare a.name b.name).then
      (compare a.qualifier b.qualifier) = .eq from h)
    cases a
    cases b
    rw [GateKey.mk.injEq]
    exact ⟨Std.LawfulEqOrd.eq_of_compare h₁, Std.LawfulEqOrd.eq_of_compare h₂⟩

end GateKey

/-- A gate on given targets. -/
structure Slot where
  key : GateKey
  targets : List Qubit
  deriving DecidableEq, Repr

namespace Slot

/-- Slots are ordered by key, then by the list of targets. -/
instance : Ord Slot := ⟨compareLex (compareOn key) (compareOn targets)⟩

instance : Std.TransOrd Slot :=
  inferInstanceAs (Std.TransCmp (compareLex (compareOn key) (compareOn targets)))

instance : Std.LawfulEqOrd Slot where
  eq_of_compare {a b} h := by
    obtain ⟨h₁, h₂⟩ := Ordering.then_eq_eq.mp (show (compare a.key b.key).then
      (compare a.targets b.targets) = .eq from h)
    cases a
    cases b
    rw [Slot.mk.injEq]
    exact ⟨Std.LawfulEqOrd.eq_of_compare h₁, Std.LawfulEqOrd.eq_of_compare h₂⟩

end Slot

end PulseControl
