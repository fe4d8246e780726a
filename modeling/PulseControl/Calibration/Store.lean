import PulseControl.Error

/-!
# Calibrations

A calibration holds parameter overrides by slot: a gate on given targets, in the order of the gate.
Entries for one slot are merged, the later value of a name winning.

* `PulseControl.Calibration.insert`, `PulseControl.Calibration.set` – more overrides;
* `PulseControl.Calibration.overrides` – the overrides of a slot;
* `PulseControl.Calibration.toEntries` – all of them, sorted.
-/

namespace PulseControl

/-- Overrides for one slot. -/
structure CalibrationEntry (α : Type) where
  slot : Slot
  params : ParamValues α

/-- Overrides by slot. -/
structure Calibration (α : Type) where
  entries : Std.ExtTreeMap Slot (ParamValues α)

namespace Calibration

variable {α : Type}

instance : EmptyCollection (Calibration α) := ⟨⟨∅⟩⟩

/-- The overrides of a slot. -/
def overrides (c : Calibration α) (slot : Slot) : ParamValues α := (c.entries[slot]?).getD ∅

/-- The override of one parameter of a slot. -/
def get? (c : Calibration α) (slot : Slot) (name : String) : Option (ParamValue α) :=
  (c.overrides slot)[name]?

/-- The values of both maps, those of the second winning. -/
def merge (values more : ParamValues α) : ParamValues α :=
  more.foldl (fun merged name value => merged.insert name value) values

/-- The calibration with an entry merged over what it has for the slot. -/
def insert (c : Calibration α) (entry : CalibrationEntry α) : Calibration α :=
  ⟨c.entries.insert entry.slot (merge (c.overrides entry.slot) entry.params)⟩

/-- The calibration with one override set. -/
def set (c : Calibration α) (slot : Slot) (name : String) (value : ParamValue α) :
    Calibration α :=
  ⟨c.entries.insert slot ((c.overrides slot).insert name value)⟩

/-- The number of slots. -/
def size (c : Calibration α) : Nat := c.entries.size

/-- The calibration of some entries, merged in order. -/
def ofEntries (entries : List (CalibrationEntry α)) : Calibration α := entries.foldl insert ∅

/-- One entry for every slot, sorted. -/
def toEntries (c : Calibration α) : List (CalibrationEntry α) :=
  c.entries.toList.map fun entry => ⟨entry.1, entry.2⟩

end Calibration

end PulseControl
