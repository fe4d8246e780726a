import PulseControl.Document.Files
import PulseControl.Proofs.Calibration.History

/-!
# What a calibration document mentions

An entry of a document mentions a slot with its parameters as they stand there, in order and with
repeated names, or with none where the parameters are left out. The calibration of a document is told
these mentions one after the other.

* `PulseControl.Calibration.mentions?` – the mentions of a document;
* `PulseControl.Calibration.holds_of_read?` – the calibration of a file holds them.
-/

namespace PulseControl

open Node

/-- The parameters of an entry as they stand in the document. -/
def namedValues? (n : Node) : Option (List (String × ParamValue Float)) := do
  let entries ← n.entries?
  entries.mapM fun e => (ParamValue.ofNode? e.2).map fun value => (e.1, value)

/-- An entry of a document as it stands there. -/
def Mention.ofNode? (n : Node) : Option (Mention Float) := do
  let (f, key) ← n.spreadFields? ["qubits", "params"] GateKey.fieldNames
  return {
    slot := ⟨← GateKey.ofFields? key, ← f.required? "qubits" (listOf? string?)⟩
    values := ← f.withDefault? "params" [] namedValues? }

/-- The mentions of a document, in order. -/
def Calibration.mentions? (n : Node) : Option (List (Mention Float)) := do
  let f ← n.fields? .yaml ["gates"]
  f.withDefault? "gates" [] (listOf? Mention.ofNode?)

/-! ### Reading an entry and merging it -/

/-- Items that are read and changed are the items read, all changed. -/
theorem Node.listOf?_map {τ υ : Type} (change : τ → υ) (read? : Node → Option τ) (n : Node) :
    n.listOf? (fun m => (read? m).map change) = (n.listOf? read?).map (List.map change) := by
  unfold listOf?
  cases n.items? with
  | none => rfl
  | some items =>
    simp only [Option.bind_some]
    induction items with
    | nil => rfl
    | cons m ms ih =>
      rw [List.mapM_cons, List.mapM_cons, ih]
      cases read? m with
      | none => rfl
      | some x => cases ms.mapM read? <;> rfl

/-- A field that is read and changed, as is what stands in for it, is the field read and changed. -/
theorem Node.Fields.withDefault?_map {τ υ : Type} (f : Fields) (name : String) (change : τ → υ)
    (default : τ) (read? : Node → Option τ) :
    f.withDefault? name (change default) (fun m => (read? m).map change) =
      (f.withDefault? name default read?).map change := by
  unfold withDefault?
  split <;> rfl

/-- The parameters of an entry are its values, written one after the other. -/
theorem ParamValues.ofNode?_eq_map (n : Node) :
    ParamValues.ofNode? n = (namedValues? n).map (ParamValues.write ∅) := by
  unfold ParamValues.ofNode? namedValues?
  simp only [Option.bind_eq_bind, Option.pure_def, Option.map_eq_bind, Option.bind_assoc]
  rfl

/-- An entry is what it mentions, of every name the last value. -/
theorem CalibrationEntry.ofNode?_eq_map (n : Node) :
    CalibrationEntry.ofNode? n =
      (Mention.ofNode? n).map fun m => ⟨m.slot, ParamValues.write ∅ m.values⟩ := by
  have hparams : ∀ f : Fields, f.withDefault? "params" ∅ ParamValues.ofNode? =
      (f.withDefault? "params" [] namedValues?).map (ParamValues.write ∅) := fun f => by
    rw [← Fields.withDefault?_map, funext ParamValues.ofNode?_eq_map]
    rfl
  unfold CalibrationEntry.ofNode? Mention.ofNode?
  simp only [hparams, Option.bind_eq_bind, Option.pure_def, Option.map_bind, Option.bind_map,
    Function.comp_def, Option.map_some]

namespace Calibration

/-- Merging an entry of a document is writing its values as they stand. -/
theorem insert_write {α : Type} (c : Calibration α) (m : Mention α) :
    c.insert ⟨m.slot, ParamValues.write ∅ m.values⟩ = c.note m := by
  simp only [insert, note, ParamValues.merge_write]

/-- The calibration of a document is told its mentions. -/
theorem ofNode?_eq_map (n : Node) : ofNode? n = (mentions? n).map fun ms => ms.foldl note ∅ := by
  have hentries : ∀ f : Fields, f.withDefault? "gates" [] (listOf? CalibrationEntry.ofNode?) =
      (f.withDefault? "gates" [] (listOf? Mention.ofNode?)).map
        (List.map fun m => ⟨m.slot, ParamValues.write ∅ m.values⟩) := fun f => by
    rw [← Fields.withDefault?_map, funext CalibrationEntry.ofNode?_eq_map,
      ← funext (Node.listOf?_map _ Mention.ofNode?)]
    rfl
  have hfold : ∀ ms : List (Mention Float),
      ofEntries (ms.map fun m => ⟨m.slot, ParamValues.write ∅ m.values⟩) = ms.foldl note ∅ :=
    fun ms => by
      rw [ofEntries, List.foldl_map]
      simp only [insert_write]
  unfold ofNode? mentions?
  simp only [hentries, Option.bind_eq_bind, Option.pure_def, Option.map_eq_bind, Option.bind_assoc,
    Option.bind_some, hfold, Function.comp_def]

/-- **The calibration of a file holds what its document mentions.** -/
theorem holds_of_read? {text : String} {c : Calibration Float} (h : read? text = some c) :
    ∃ document history, Yaml.read? text = some document ∧ mentions? document = some history ∧
      c.Holds history := by
  obtain ⟨document, hdocument, hc⟩ := Option.bind_eq_some_iff.mp h
  rw [ofNode?_eq_map, Option.map_eq_some_iff] at hc
  obtain ⟨history, hhistory, rfl⟩ := hc
  refine ⟨document, history, hdocument, hhistory, ?_⟩
  simpa using (holds_empty (α := Float)).foldl_note history

end Calibration

end PulseControl
