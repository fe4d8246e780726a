import PulseControl.Proofs.Calibration.History

/-!
# The listing of a calibration

A calibration is listed by one entry for every slot, the slots in order. The listing says all that the
calibration holds, and merging its entries one after the other gives the calibration again.

* `PulseControl.Calibration.mem_toEntries_iff` – the entries of the listing;
* `PulseControl.Calibration.toEntries_sorted` – their order, in which no slot stands twice;
* `PulseControl.Calibration.ofEntries_toEntries` – the calibration of the listing.
-/

namespace PulseControl.Calibration

variable {α : Type}

/-- Every slot is listed with its overrides. -/
theorem mem_toEntries_iff {c : Calibration α} {e : CalibrationEntry α} :
    e ∈ c.toEntries ↔ c.entries[e.slot]? = some e.params := by
  rw [toEntries, List.mem_map, ← Std.ExtTreeMap.mem_toList_iff_getElem?_eq_some]
  constructor
  · rintro ⟨entry, hentry, rfl⟩
    exact hentry
  · exact fun h => ⟨_, h, rfl⟩

/-- **The slots are listed in order**, each once. -/
theorem toEntries_sorted (c : Calibration α) :
    c.toEntries.Pairwise fun a b => compare a.slot b.slot = .lt :=
  List.pairwise_map.mpr c.entries.ordered_keys_toList

/-- The overrides of an entry of the listing. -/
theorem overrides_of_mem_toEntries {c : Calibration α} {e : CalibrationEntry α}
    (h : e ∈ c.toEntries) : c.overrides e.slot = e.params := by
  rw [overrides, mem_toEntries_iff.mp h, Option.getD_some]

/-- The slots of the listing are those of the calibration. -/
theorem mem_map_slot_toEntries {c : Calibration α} {slot : Slot} :
    slot ∈ c.toEntries.map CalibrationEntry.slot ↔ slot ∈ c.entries := by
  rw [Std.ExtTreeMap.mem_iff_isSome_getElem?, Option.isSome_iff_exists, List.mem_map]
  constructor
  · rintro ⟨e, he, rfl⟩
    exact ⟨e.params, mem_toEntries_iff.mp he⟩
  · rintro ⟨params, h⟩
    exact ⟨⟨slot, params⟩, mem_toEntries_iff.mpr h, rfl⟩

/-- No slot is listed twice. -/
theorem toEntries_distinct (c : Calibration α) : c.toEntries.Pairwise fun a b => a.slot ≠ b.slot :=
  c.toEntries_sorted.imp fun hlt heq => by
    rw [heq, Std.compare_eq_iff_eq.mpr rfl] at hlt
    cases hlt

/-- An entry is the only one of its slot. -/
theorem filter_slot_toEntries {c : Calibration α} {e : CalibrationEntry α} (h : e ∈ c.toEntries) :
    (c.toEntries.filter fun f => f.slot = e.slot) = [e] := by
  obtain ⟨before, after, heq⟩ := List.append_of_mem h
  have hdistinct := c.toEntries_distinct
  rw [heq, List.pairwise_append, List.pairwise_cons] at hdistinct
  have hbefore : (before.filter fun f => f.slot = e.slot) = [] :=
    List.filter_eq_nil_iff.mpr fun f hf hslot =>
      hdistinct.2.2 f hf e List.mem_cons_self (of_decide_eq_true hslot)
  have hafter : (after.filter fun f => f.slot = e.slot) = [] :=
    List.filter_eq_nil_iff.mpr fun f hf hslot =>
      hdistinct.2.1.1 f hf (of_decide_eq_true hslot).symm
  rw [heq, List.filter_append, hbefore, List.filter_cons_of_pos (by simp), hafter, List.nil_append]

/-- **A calibration holds what its listing mentions.** -/
theorem holds_toEntries (c : Calibration α) : c.Holds (c.toEntries.map Mention.ofEntry) where
  mem_iff slot := by
    rw [List.map_map]
    exact mem_map_slot_toEntries.symm
  values_eq slot name := by
    have hvalues : Mention.valuesOf (c.toEntries.map Mention.ofEntry) slot =
        (c.toEntries.filter fun e => e.slot = slot).flatMap fun e => e.params.toList := by
      rw [Mention.valuesOf, List.filter_map, List.flatMap_map]
      rfl
    rw [Mention.lastWritten?, hvalues]
    -- all that the listing says of the slot stands in one entry, if there is any
    by_cases h : slot ∈ c.entries
    · obtain ⟨e, he, rfl⟩ := List.mem_map.mp (mem_map_slot_toEntries.mpr h)
      rw [filter_slot_toEntries he, overrides_of_mem_toEntries he, List.flatMap_singleton,
        ParamValues.lookup_reverse_toList]
    · have hnone : (c.toEntries.filter fun e => e.slot = slot) = [] :=
        List.filter_eq_nil_iff.mpr fun e he hslot =>
          h (mem_map_slot_toEntries.mp (List.mem_map.mpr ⟨e, he, of_decide_eq_true hslot⟩))
      rw [hnone, getElem?_overrides_of_notMem h]
      rfl

/-- A calibration of entries holds what they mention. -/
theorem holds_ofEntries (entries : List (CalibrationEntry α)) :
    (ofEntries entries).Holds (entries.map Mention.ofEntry) := by
  have h := (holds_empty (α := α)).foldl_note (entries.map Mention.ofEntry)
  rw [List.foldl_map] at h
  rw [ofEntries, show (insert : Calibration α → CalibrationEntry α → Calibration α) =
    fun c e => c.note (.ofEntry e) from funext fun c => funext fun e => c.insert_eq_note e]
  exact h

/-- **The listing of a calibration gives it back.** -/
theorem ofEntries_toEntries (c : Calibration α) : ofEntries c.toEntries = c :=
  (holds_ofEntries c.toEntries).unique c.holds_toEntries (fun _ => Iff.rfl) fun _ _ => rfl

end PulseControl.Calibration
