import Mathlib.Data.List.Dedup
import Mathlib.Data.List.Induction
import PulseControl.Calibration.Store

/-!
# What a calibration has been told

A calibration is told values in mentions: a slot and the named values that are given for it, none
perhaps. Every change of a calibration is a mention, of one value or of a whole entry. A calibration
holds a history of mentions where it has exactly the slots that were mentioned and, of each, the value
that every name was given last. What a history says determines the calibration that holds it, so the
order of mentions matters only where they give two values for one name.

* `PulseControl.Calibration.note` – one more mention;
* `PulseControl.Calibration.Holds` – a calibration and what it has been told;
* `PulseControl.Calibration.Holds.note` – a mention extends the history;
* `PulseControl.Calibration.Holds.size_eq` – there is one slot for every one mentioned.
-/

namespace PulseControl

variable {α : Type}

/-- The values given for a slot at one time, in order. A name may be given more than one. -/
structure Mention (α : Type) where
  slot : Slot
  values : List (String × ParamValue α)

namespace Mention

/-- What is mentioned of a slot in a history, in order. -/
def valuesOf (history : List (Mention α)) (slot : Slot) : List (String × ParamValue α) :=
  (history.filter fun m => m.slot = slot).flatMap Mention.values

/-- **The value written last** for a name of a slot. -/
def lastWritten? (history : List (Mention α)) (slot : Slot) (name : String) :
    Option (ParamValue α) :=
  (valuesOf history slot).reverse.lookup name

/-- The values of an entry, all at one time. -/
def ofEntry (e : CalibrationEntry α) : Mention α := ⟨e.slot, e.params.toList⟩

theorem valuesOf_concat_self (history : List (Mention α)) (m : Mention α) :
    valuesOf (history ++ [m]) m.slot = valuesOf history m.slot ++ m.values := by
  simp [valuesOf]

theorem valuesOf_concat_of_ne (history : List (Mention α)) {m : Mention α} {slot : Slot}
    (h : m.slot ≠ slot) : valuesOf (history ++ [m]) slot = valuesOf history slot := by
  simp [valuesOf, h]

end Mention

/-! ### Values written one after the other -/

namespace ParamValues

/-- The values with some more written over them, one after the other. -/
def write (values : ParamValues α) (more : List (String × ParamValue α)) : ParamValues α :=
  more.foldl (fun written v => written.insert v.1 v.2) values

/-- A name has the last value written for it, or else the one that it had. -/
theorem getElem?_write (values : ParamValues α) (more : List (String × ParamValue α))
    (name : String) :
    (values.write more)[name]? = (more.reverse.lookup name).or values[name]? := by
  -- from the right, for the last value is the one that wins
  induction more using List.reverseRecOn with
  | nil => rfl
  | append_singleton more v ih =>
    have hstep : values.write (more ++ [v]) = (values.write more).insert v.1 v.2 := by
      simp [write]
    rw [hstep, Std.ExtTreeMap.getElem?_insert, ih, List.reverse_concat, List.lookup_cons]
    by_cases h : v.1 = name
    · simp [h]
    · have hne : (name == v.1) = false := beq_false_of_ne (Ne.symm h)
      simp [h, hne]

/-- Writing all values of a map is merging it. -/
theorem write_toList (values more : ParamValues α) :
    values.write more.toList = Calibration.merge values more := by
  rw [Calibration.merge, Std.ExtTreeMap.foldl_eq_foldl_toList]
  rfl

/-- No name stands twice in the list of a map, so the last value of a name is its only one. -/
theorem lookup_reverse_toList (values : ParamValues α) (name : String) :
    values.toList.reverse.lookup name = values[name]? := by
  refine Option.ext fun v => ?_
  rw [List.lookup_eq_some_iff, ← Std.ExtTreeMap.mem_toList_iff_getElem?_eq_some,
    ← List.mem_reverse]
  constructor
  · rintro ⟨before, after, heq, -⟩
    rw [heq]
    exact List.mem_append_right before List.mem_cons_self
  · intro hmem
    obtain ⟨before, after, heq⟩ := List.append_of_mem hmem
    refine ⟨before, after, heq, fun e he => bne_iff_ne.mpr fun hname => ?_⟩
    have hdistinct := List.pairwise_reverse.mpr (values.distinct_keys_toList.imp fun h hba =>
      h (Std.OrientedCmp.eq_symm hba))
    rw [heq, List.pairwise_append] at hdistinct
    exact hdistinct.2.2 e he _ List.mem_cons_self (by rw [hname]; exact Std.ReflCmp.compare_self)

/-- Writing all values of a map from scratch gives it again. -/
theorem write_empty_toList (values : ParamValues α) : write ∅ values.toList = values := by
  refine Std.ExtTreeMap.ext_getElem? fun name => ?_
  rw [getElem?_write, lookup_reverse_toList, Std.ExtTreeMap.getElem?_empty, Option.or_none]

/-- Merging what has been written elsewhere is writing it. -/
theorem merge_write (values : ParamValues α) (more : List (String × ParamValue α)) :
    Calibration.merge values (write ∅ more) = values.write more := by
  refine Std.ExtTreeMap.ext_getElem? fun name => ?_
  rw [← write_toList, getElem?_write, lookup_reverse_toList, getElem?_write, getElem?_write,
    Std.ExtTreeMap.getElem?_empty, Option.or_none]

end ParamValues

namespace Calibration

/-! ### Changes are mentions -/

/-- The calibration with a mention written over what it has for the slot. -/
def note (c : Calibration α) (m : Mention α) : Calibration α :=
  ⟨c.entries.insert m.slot ((c.overrides m.slot).write m.values)⟩

/-- A change of a calibration. -/
inductive Operation (α : Type) where
  | insert (entry : CalibrationEntry α)
  | set (slot : Slot) (name : String) (value : ParamValue α)

namespace Operation

/-- The calibration after a change. -/
def perform (c : Calibration α) : Operation α → Calibration α
  | .insert entry => c.insert entry
  | .set slot name value => c.set slot name value

/-- What a change mentions. -/
def mention : Operation α → Mention α
  | .insert entry => .ofEntry entry
  | .set slot name value => ⟨slot, [(name, value)]⟩

end Operation

theorem insert_eq_note (c : Calibration α) (e : CalibrationEntry α) :
    c.insert e = c.note (.ofEntry e) := by
  simp only [insert, note, Mention.ofEntry, ParamValues.write_toList]

theorem perform_eq_note (c : Calibration α) (o : Operation α) : o.perform c = c.note o.mention := by
  cases o with
  | insert entry => exact c.insert_eq_note entry
  | set slot name value => rfl

/-- Changes one after the other are mentions one after the other. -/
theorem foldl_perform (c : Calibration α) (operations : List (Operation α)) :
    operations.foldl Operation.perform c = (operations.map Operation.mention).foldl note c := by
  rw [List.foldl_map]
  congr 1
  funext c o
  exact c.perform_eq_note o

/-! ### The slots and values of a calibration -/

theorem getElem?_overrides_of_notMem {c : Calibration α} {slot : Slot} (h : slot ∉ c.entries)
    (name : String) : (c.overrides slot)[name]? = none := by
  rw [overrides, Std.ExtTreeMap.getElem?_eq_none h]
  exact Std.ExtTreeMap.getElem?_empty

/-- Calibrations with the same slots and the same values are equal. -/
theorem ext_overrides {c d : Calibration α} (hslots : ∀ slot, slot ∈ c.entries ↔ slot ∈ d.entries)
    (hvalues : ∀ slot (name : String), (c.overrides slot)[name]? = (d.overrides slot)[name]?) :
    c = d := by
  suffices h : c.entries = d.entries by
    cases c
    cases d
    exact congrArg Calibration.mk h
  refine Std.ExtTreeMap.ext_getElem? fun slot => ?_
  -- the overrides of a slot that is missing are empty as well, so they do not tell whether it is there
  by_cases hc : slot ∈ c.entries
  · obtain ⟨p, hp⟩ := Std.ExtTreeMap.mem_iff_isSome_getElem?.mp hc |> Option.isSome_iff_exists.mp
    obtain ⟨q, hq⟩ :=
      Std.ExtTreeMap.mem_iff_isSome_getElem?.mp ((hslots slot).mp hc) |> Option.isSome_iff_exists.mp
    have hpq : p = q := Std.ExtTreeMap.ext_getElem? fun name => by
      simpa [overrides, hp, hq] using hvalues slot name
    rw [hp, hq, hpq]
  · rw [Std.ExtTreeMap.getElem?_eq_none hc,
      Std.ExtTreeMap.getElem?_eq_none ((hslots slot).not.mp hc)]

/-! ### Calibrations and histories -/

/-- **The calibration holds a history**: it has exactly the slots that are mentioned, and of each the
value written last for every name. -/
structure Holds (c : Calibration α) (history : List (Mention α)) : Prop where
  mem_iff : ∀ slot, slot ∈ c.entries ↔ slot ∈ history.map Mention.slot
  values_eq : ∀ slot (name : String),
    (c.overrides slot)[name]? = Mention.lastWritten? history slot name

variable {c d : Calibration α} {history : List (Mention α)}

theorem holds_empty : Holds (∅ : Calibration α) [] where
  mem_iff _ := iff_of_false Std.ExtTreeMap.not_mem_empty List.not_mem_nil
  values_eq _ name := getElem?_overrides_of_notMem Std.ExtTreeMap.not_mem_empty name

theorem overrides_note_self (c : Calibration α) (m : Mention α) :
    (c.note m).overrides m.slot = (c.overrides m.slot).write m.values := by
  simp [overrides, note]

theorem overrides_note_of_ne (c : Calibration α) {m : Mention α} {slot : Slot} (h : m.slot ≠ slot) :
    (c.note m).overrides slot = c.overrides slot := by
  simp [overrides, note, Std.ExtTreeMap.getElem?_insert, h]

/-- **A mention extends the history.** -/
theorem Holds.note (h : c.Holds history) (m : Mention α) : (c.note m).Holds (history ++ [m]) where
  mem_iff slot := by
    have hmem : slot ∈ (c.note m).entries ↔ m.slot = slot ∨ slot ∈ c.entries := by
      rw [Calibration.note, Std.ExtTreeMap.mem_insert, Std.compare_eq_iff_eq]
    rw [hmem, h.mem_iff, List.map_append, List.mem_append, List.map_singleton, List.mem_singleton,
      or_comm, eq_comm]
  values_eq slot name := by
    by_cases hs : m.slot = slot
    · subst hs
      rw [overrides_note_self, ParamValues.getElem?_write, h.values_eq, Mention.lastWritten?,
        Mention.lastWritten?, Mention.valuesOf_concat_self, List.reverse_append, List.lookup_append]
    · rw [c.overrides_note_of_ne hs, h.values_eq, Mention.lastWritten?, Mention.lastWritten?,
        Mention.valuesOf_concat_of_ne history hs]

/-- Any number of mentions extend the history. -/
theorem Holds.foldl_note (h : c.Holds history) (more : List (Mention α)) :
    (more.foldl Calibration.note c).Holds (history ++ more) := by
  induction more using List.reverseRecOn with
  | nil => simpa using h
  | append_singleton more m ih =>
    rw [List.foldl_append, ← List.append_assoc]
    exact ih.note m

/-- **There is one slot for every one mentioned**, however often it is. -/
theorem Holds.size_eq (h : c.Holds history) : c.size = (history.map Mention.slot).dedup.length := by
  -- the keys of a map do not repeat, and the slots mentioned are made not to
  have hkeys : c.entries.keys.Perm (history.map Mention.slot).dedup := by
    refine (List.perm_ext_iff_of_nodup Std.ExtTreeMap.nodup_keys (List.nodup_dedup _)).mpr
      fun slot => ?_
    rw [Std.ExtTreeMap.mem_keys, h.mem_iff, List.mem_dedup]
  rw [size, ← Std.ExtTreeMap.length_keys]
  exact hkeys.length_eq

/-- Histories with the same slots and the same values written last are held by one calibration. -/
theorem Holds.unique {history' : List (Mention α)} (h : c.Holds history) (h' : d.Holds history')
    (hslots : ∀ slot, slot ∈ history.map Mention.slot ↔ slot ∈ history'.map Mention.slot)
    (hvalues : ∀ slot name,
      Mention.lastWritten? history slot name = Mention.lastWritten? history' slot name) :
    c = d :=
  ext_overrides (fun slot => by rw [h.mem_iff, hslots, h'.mem_iff])
    fun slot name => by rw [h.values_eq, hvalues, h'.values_eq]

end Calibration

end PulseControl
