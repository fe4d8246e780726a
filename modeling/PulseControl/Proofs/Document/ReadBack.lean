import Mathlib.Data.List.Forall2
import PulseControl.Document.Files

/-!
# Documents that read back

What is written as data is read as a document whose scalars carry no types. It reads back where its
scalars, typed by their looks, are those of the data, in the same lists and records. Then every type that
is expected finds what was written: a string is the text of its scalar, even where the scalar might have
looked like something else, the items of a list are read one by one, and the fields of a record stand under
their names.

* `PulseControl.Datum.settled` – the document that data stands for;
* `PulseControl.Yaml.ReadsBack` – the text of the data reads as that document;
* `PulseControl.Node.listOf?_of_settle`, `PulseControl.Node.named_of_settle` – lists and records that
  read back;
* `PulseControl.Yaml.Writable` – data that has a text wherever it stands.
-/

/-- A list is read where each of its items is. -/
theorem Option.mapM_eq_some {τ υ : Type} {f : τ → Option υ} {xs : List τ} {ys : List υ} :
    xs.mapM f = some ys ↔ List.Forall₂ (fun x y => f x = some y) xs ys := by
  induction xs generalizing ys with
  | nil => cases ys <;> simp
  | cons x xs ih =>
    rw [List.mapM_cons]
    constructor
    · intro h
      obtain ⟨y, hy, rest, hrest, heq⟩ := by
        simpa only [Option.bind_eq_bind, Option.bind_eq_some_iff] using h
      cases heq
      exact .cons hy (ih.mp hrest)
    · rintro (_ | ⟨hy, hrest⟩)
      rw [hy, ih.mpr hrest]
      rfl

namespace PulseControl

/-! ### What data stands for -/

mutual

/-- The document that data stands for. A value of an alternative is not told apart from its content. -/
def Datum.settled : Datum → Node
  | .null => .null
  | .bool b => .bool b
  | .int i => .int i
  | .float x => .float x
  | .str s => .str s
  | .list items => .list (Datum.settledItems items)
  | .record fields => .record (Datum.settledFields fields)
  | .variant _ content => content.settled

/-- The documents of the items of a list. -/
def Datum.settledItems : List Datum → List Node
  | [] => []
  | d :: ds => d.settled :: Datum.settledItems ds

/-- The names and documents of the fields of a record. -/
def Datum.settledFields : List (String × Datum) → List (Node × Node)
  | [] => []
  | (name, d) :: fields => (.str name, d.settled) :: Datum.settledFields fields

end

theorem Datum.settledItems_eq_map (items : List Datum) :
    Datum.settledItems items = items.map Datum.settled := by
  induction items with
  | nil => rfl
  | cons d ds ih => rw [Datum.settledItems, ih, List.map_cons]

theorem Datum.settledFields_eq_map (fields : List (String × Datum)) :
    Datum.settledFields fields = fields.map fun f => (.str f.1, f.2.settled) := by
  induction fields with
  | nil => rfl
  | cons f fields ih => rw [Datum.settledFields, ih, List.map_cons]

/-- **The data reads back**: if it is written, then its text is read as the document that it stands
for. -/
def Yaml.ReadsBack (d : Datum) : Prop :=
  ∀ text, Yaml.write? d = some text → (Yaml.read? text).bind Node.settle = some d.settled

/-! ### Whether data reads back can be seen -/

mutual

/-- Whether a document is the one that data stands for. -/
def Datum.standsFor : Datum → Node → Bool
  | .null, .null => true
  | .bool b, .bool c => c = b
  | .int i, .int j => j = i
  | .float x, .float y => y = x
  | .str s, .str t => t = s
  | .list items, .list ns => Datum.itemsStandFor items ns
  | .record fields, .record fs => Datum.fieldsStandFor fields fs
  | .variant _ content, n => content.standsFor n
  | _, _ => false

/-- Whether documents are those of the items of a list. -/
def Datum.itemsStandFor : List Datum → List Node → Bool
  | [], [] => true
  | d :: ds, n :: ns => d.standsFor n && Datum.itemsStandFor ds ns
  | _, _ => false

/-- Whether names and documents are those of the fields of a record. -/
def Datum.fieldsStandFor : List (String × Datum) → List (Node × Node) → Bool
  | [], [] => true
  | (name, d) :: fields, (.str s, n) :: fs =>
    decide (s = name) && d.standsFor n && Datum.fieldsStandFor fields fs
  | _, _ => false

end

mutual

theorem Datum.standsFor_iff : ∀ (d : Datum) (n : Node), d.standsFor n = true ↔ n = d.settled
  | .null, n => by cases n <;> simp [standsFor, settled]
  | .bool b, n => by cases n <;> simp [standsFor, settled]
  | .int i, n => by cases n <;> simp [standsFor, settled]
  | .float x, n => by cases n <;> simp [standsFor, settled]
  | .str s, n => by cases n <;> simp [standsFor, settled]
  | .list items, n => by cases n <;> simp [standsFor, settled, Datum.itemsStandFor_iff items]
  | .record fields, n => by cases n <;> simp [standsFor, settled, Datum.fieldsStandFor_iff fields]
  | .variant _ content, n => by simp only [standsFor, settled, Datum.standsFor_iff content n]

theorem Datum.itemsStandFor_iff : ∀ (items : List Datum) (ns : List Node),
    Datum.itemsStandFor items ns = true ↔ ns = Datum.settledItems items
  | [], ns => by cases ns <;> simp [itemsStandFor, settledItems]
  | d :: ds, ns => by
    cases ns with
    | nil => simp [itemsStandFor, settledItems]
    | cons n ns =>
      simp [itemsStandFor, settledItems, Datum.standsFor_iff d, Datum.itemsStandFor_iff ds]

theorem Datum.fieldsStandFor_iff : ∀ (fields : List (String × Datum)) (fs : List (Node × Node)),
    Datum.fieldsStandFor fields fs = true ↔ fs = Datum.settledFields fields
  | [], fs => by cases fs <;> simp [fieldsStandFor, settledFields]
  | (name, d) :: fields, fs => by
    cases fs with
    | nil => simp [fieldsStandFor, settledFields]
    | cons f fs =>
      obtain ⟨key, n⟩ := f
      cases key <;>
        simp [fieldsStandFor, settledFields, Datum.standsFor_iff d, Datum.fieldsStandFor_iff fields,
          and_assoc]

end

instance (d : Datum) : Decidable (Yaml.ReadsBack d) :=
  decidable_of_iff
    ((Yaml.write? d).all fun text => ((Yaml.read? text).bind Node.settle).any d.standsFor) (by
      rw [Yaml.ReadsBack, Option.all_eq_true]
      refine forall_congr' fun text => imp_congr_right fun _ => ?_
      cases (Yaml.read? text).bind Node.settle with
      | none => simp
      | some n => simp [d.standsFor_iff])

/-! ### Scalars that read back -/

namespace Lexeme

/-- A text that looks like a string is that string. -/
theorem eq_of_meaningOfText {text s : String} (h : meaningOfText text = .str s) : text = s := by
  unfold meaningOfText meaningOfInt at h
  split at h
  · cases h
  · split at h
    · cases h
    · split at h
      · split at h <;> cases h
      · split at h
        · exact Meaning.str.inj h
        · split at h
          · cases h
          · exact Meaning.str.inj h

/-- A scalar that denotes a string has it for its text. -/
theorem text_of_meaning {l : Lexeme} {s : String} (h : l.meaning = .str s) : l.text = s := by
  unfold meaning at h
  split at h
  · split at h
    · exact eq_of_meaningOfText h
    · exact Meaning.str.inj h
  · split at h <;> cases h
  · cases hb : boolWord? l.text <;> rw [hb] at h <;> cases h
  · cases hi : integerOf? l.text with
    | none => rw [hi] at h; cases h
    | some i =>
      rw [hi, Option.elim_some, meaningOfInt] at h
      split at h <;> cases h
  · cases hx : numberOf? l.text <;> rw [hx] at h <;> cases h
  · exact Meaning.str.inj h

end Lexeme

namespace Node

variable {n : Node}

/-- A scalar is not settled as a list. -/
theorem ofMeaning?_ne_list (m : Meaning) (items : List Node) : ofMeaning? m ≠ some (.list items) := by
  cases m <;> simp [ofMeaning?]

/-- A scalar is not settled as a record. -/
theorem ofMeaning?_ne_record (m : Meaning) (fields : List (Node × Node)) :
    ofMeaning? m ≠ some (.record fields) := by
  cases m <;> simp [ofMeaning?]

/-- A scalar is settled as a string if it denotes that string. -/
theorem meaning_of_settle {m : Meaning} {s : String} (h : ofMeaning? m = some (.str s)) :
    m = .str s := by
  cases m <;> simp_all [ofMeaning?]

/-- A string is read as a string. -/
theorem string?_of_settle {s : String} (h : n.settle = some (.str s)) : n.string? = some s := by
  cases n with
  | lexeme l =>
    rw [settle] at h
    exact congrArg some (Lexeme.text_of_meaning (meaning_of_settle h))
  | str t => simpa [settle, string?, bare] using h
  | list items => simp [settle] at h
  | record fields => simp [settle] at h
  | _ => simp [settle] at h

/-! ### Lists and records that read back -/

theorem settleItems_eq_mapM (items : List Node) : settleItems items = items.mapM settle := by
  induction items with
  | nil => rfl
  | cons n ns ih => rw [settleItems, ih, List.mapM_cons]

/-- What is settled as a list is a list of items that are. -/
theorem exists_items_of_settle {items : List Node} (h : n.settle = some (.list items)) :
    ∃ ns, n = .list ns ∧ List.Forall₂ (fun n m => n.settle = some m) ns items := by
  cases n with
  | list ns =>
    obtain ⟨_, hitems, heq⟩ := Option.map_eq_some_iff.mp (by rwa [settle] at h)
    cases heq
    exact ⟨ns, rfl, Option.mapM_eq_some.mp (by rwa [← settleItems_eq_mapM])⟩
  | lexeme l => exact absurd (by rwa [settle] at h) (ofMeaning?_ne_list l.meaning items)
  | record fields => simp [settle] at h
  | _ => simp [settle] at h

/-- The keys and values of a record are settled one by one. -/
theorem forall₂_of_settleFields {fs fields : List (Node × Node)}
    (h : settleFields fs = some fields) :
    List.Forall₂ (fun f g => f.1.settle = some g.1 ∧ f.2.settle = some g.2) fs fields := by
  induction fs generalizing fields with
  | nil =>
    cases h
    exact .nil
  | cons f fs ih =>
    simp only [settleFields, Option.bind_eq_bind, Option.bind_eq_some_iff] at h
    obtain ⟨k, hk, v, hv, rest, hrest, heq⟩ := h
    cases heq
    exact .cons ⟨hk, hv⟩ (ih hrest)

/-- What is settled as a record is a record of keys and values that are. -/
theorem exists_fields_of_settle {fields : List (Node × Node)}
    (h : n.settle = some (.record fields)) :
    ∃ fs, n = .record fs ∧
      List.Forall₂ (fun f g => f.1.settle = some g.1 ∧ f.2.settle = some g.2) fs fields := by
  cases n with
  | record fs =>
    obtain ⟨_, hfields, heq⟩ := Option.map_eq_some_iff.mp (by rwa [settle] at h)
    cases heq
    exact ⟨fs, rfl, forall₂_of_settleFields hfields⟩
  | lexeme l => exact absurd (by rwa [settle] at h) (ofMeaning?_ne_record l.meaning fields)
  | list items => simp [settle] at h
  | _ => simp [settle] at h

/-- **A list that reads back** is read with what reads each of its items back. -/
theorem listOf?_of_settle {τ : Type} {read? : Node → Option τ} {encode : τ → Datum} {xs : List τ}
    (hread : ∀ x ∈ xs, ∀ m : Node, m.settle = some (encode x).settled → read? m = some x)
    (h : n.settle = some (Datum.list (xs.map encode)).settled) : n.listOf? read? = some xs := by
  rw [Datum.settled, Datum.settledItems_eq_map, List.map_map] at h
  obtain ⟨ns, rfl, hns⟩ := exists_items_of_settle h
  rw [List.forall₂_map_right_iff] at hns
  refine Option.mapM_eq_some.mpr ?_
  clear h
  induction hns with
  | nil => exact .nil
  | cons hx _ ih =>
    exact .cons (hread _ List.mem_cons_self _ hx) (ih fun x hx => hread x (List.mem_cons_of_mem _ hx))

/-- Fields under their names, each with a value that reads back. -/
def Named (named : List (String × Node)) (fields : List (String × Datum)) : Prop :=
  List.Forall₂ (fun a b => a.1 = b.1 ∧ a.2.settle = some b.2.settled) named fields

/-- **A record that reads back** has its fields under their names, whatever reads the names. -/
theorem named_of_settle {fields : List (String × Datum)}
    (h : n.settle = some (Datum.record fields).settled) :
    ∃ fs named, n = .record fs ∧ Named named fields ∧
      ∀ name? : Node → Option String,
        (∀ (key : Node) s, key.settle = some (.str s) → name? key = some s) →
        (fs.mapM fun f => (name? f.1).map fun name => (name, f.2)) = some named := by
  rw [Datum.settled, Datum.settledFields_eq_map] at h
  obtain ⟨fs, rfl, hfs⟩ := exists_fields_of_settle h
  rw [List.forall₂_map_right_iff] at hfs
  -- the names are those of the data, the values those of the document
  refine ⟨fs, (fs.zip fields).map fun p => (p.2.1, p.1.2), rfl, ?_, fun name? hname? => ?_⟩
  · clear h
    induction hfs with
    | nil => exact .nil
    | cons hf _ ih => exact .cons ⟨rfl, hf.2⟩ ih
  · refine Option.mapM_eq_some.mpr ?_
    clear h
    induction hfs with
    | nil => exact .nil
    | cons hf _ ih => exact .cons (by rw [hname? _ _ hf.1]; rfl) ih

/-- The name of a field is read as the string that it is. -/
theorem fieldName?_of_settle (names : List String) {key : Node} {s : String}
    (h : key.settle = some (.str s)) : fieldName? names key = some s := by
  cases key with
  | int i => simp [settle] at h
  | _ => exact string?_of_settle h

/-- The fields have the names of the data. -/
theorem Named.map_fst {named : List (String × Node)} {fields : List (String × Datum)}
    (h : Named named fields) : named.map Prod.fst = fields.map Prod.fst := by
  induction h with
  | nil => rfl
  | cons hf _ ih => rw [List.map_cons, List.map_cons, hf.1, ih]

/-- A property that the names of all fields have. -/
theorem Named.forall_fst {named : List (String × Node)} {fields : List (String × Datum)}
    (h : Named named fields) {P : String → Prop} (hP : ∀ f ∈ fields, P f.1) : ∀ e ∈ named, P e.1 := by
  intro e he
  have hmem : e.1 ∈ fields.map Prod.fst := h.map_fst ▸ List.mem_map_of_mem he
  obtain ⟨f, hf, heq⟩ := List.mem_map.mp hmem
  exact heq ▸ hP f hf

/-- A field is found by its name. -/
theorem Named.get? {named : List (String × Node)} {fields : List (String × Datum)}
    (h : Named named fields) (name : String) {d : Datum} (hd : fields.lookup name = some d)
    (positional : Bool) :
    ∃ m : Node, m.settle = some d.settled ∧ Fields.get? ⟨named, positional⟩ name = some m := by
  rw [Fields.get?]
  induction h with
  | nil => cases hd
  | @cons e f named fields hf _ ih =>
    rw [List.lookup_cons] at hd ⊢
    rw [hf.1]
    split at hd
    · cases hd
      exact ⟨e.2, hf.2, rfl⟩
    · exact ih hd

/-- Fields of which no name occurs twice are fields. -/
theorem Fields.unique?_of_nodup {entries : List (String × Node)}
    (h : (entries.map Prod.fst).Nodup) : Fields.unique? entries = some ⟨entries, false⟩ :=
  if_pos h

/-- Fields of which those of some names stand behind the others, parted by these names. -/
theorem Fields.partition_append {outer : List String} {front back : List (String × Node)}
    (hfront : ∀ e ∈ front, e.1 ∉ outer) (hback : ∀ e ∈ back, e.1 ∈ outer) :
    ((front ++ back).partition fun e => outer.contains e.1) = (back, front) := by
  have hown : ((front ++ back).filter fun e => outer.contains e.1) = back := by
    rw [List.filter_append, List.filter_eq_nil_iff.mpr fun e he => by simpa using hfront e he,
      List.filter_eq_self.mpr fun e he => by simpa using hback e he, List.nil_append]
  have hrest : ((front ++ back).filter (not ∘ fun e => outer.contains e.1)) = front := by
    rw [List.filter_append, List.filter_eq_self.mpr fun e he => by simpa using hfront e he,
      List.filter_eq_nil_iff.mpr fun e he => by simpa using hback e he, List.append_nil]
  rw [List.partition_eq_filter_filter, hown, hrest]

/-- **A record that is spread in another one** is told apart from it by the names of the fields. -/
theorem spreadFields?_of_settle {outer inner : List String} {spread own : List (String × Datum)}
    (h : n.settle = some (Datum.record (spread ++ own)).settled)
    (hspread : ∀ f ∈ spread, f.1 ∉ outer ∧ f.1 ∈ inner) (hown : ∀ f ∈ own, f.1 ∈ outer)
    (hspreadNodup : (spread.map Prod.fst).Nodup) (hownNodup : (own.map Prod.fst).Nodup) :
    ∃ named, Named named own ∧ n.spreadFields? outer inner =
      some (⟨named, false⟩, ⟨spread.map fun f => (f.1, f.2.settled), false⟩) := by
  obtain ⟨fs, named, rfl, hnamed, hread⟩ := named_of_settle h
  have hfields := hread (fieldName? []) fun _ _ => fieldName?_of_settle []
  -- the fields that are spread stand in front of the others, as they were written
  obtain ⟨front, back, rfl, hfront, hback⟩ :
      ∃ front back, named = front ++ back ∧ Named front spread ∧ Named back own :=
    ⟨_, _, (List.take_append_drop spread.length named).symm, List.forall₂_take_append _ _ _ hnamed,
      List.forall₂_drop_append _ _ _ hnamed⟩
  have hparted : ((front ++ back).partition fun e => outer.contains e.1) = (back, front) :=
    Fields.partition_append (hfront.forall_fst (P := (· ∉ outer)) fun f hf => (hspread f hf).1)
      (hback.forall_fst (P := (· ∈ outer)) hown)
  have hsettled : (front.mapM fun f => f.2.settle.map fun value => (f.1, value)) =
      some (spread.map fun f => (f.1, f.2.settled)) := by
    rw [Option.mapM_eq_some, List.forall₂_map_right_iff]
    exact hfront.imp fun e f he => by rw [he.2, Option.map_some, he.1]
  have hinner : ((spread.map fun f => (f.1, f.2.settled)).filter fun f => inner.contains f.1) =
      spread.map fun f => (f.1, f.2.settled) := by
    refine List.filter_eq_self.mpr fun e he => ?_
    obtain ⟨f, hf, rfl⟩ := List.mem_map.mp he
    simpa using (hspread f hf).2
  have huniqueOwn := Fields.unique?_of_nodup (hback.map_fst ▸ hownNodup)
  have huniqueSpread : Fields.unique? (spread.map fun f => (f.1, f.2.settled)) = some ⟨_, false⟩ :=
    Fields.unique?_of_nodup (by rwa [List.map_map])
  refine ⟨back, hback, ?_⟩
  simp only [spreadFields?, bare, hfields, Option.bind_eq_bind, Option.bind_some, hparted, hsettled,
    hinner, huniqueOwn, huniqueSpread]
  rfl

/-- A record of no other fields than are asked for. -/
theorem fields?_of_settle (format : DocumentFormat) (names : List String)
    {fields : List (String × Datum)} (h : n.settle = some (Datum.record fields).settled)
    (hnames : ∀ f ∈ fields, f.1 ∈ names) (hnodup : (fields.map Prod.fst).Nodup) :
    ∃ named, Named named fields ∧ n.fields? format names = some ⟨named, false⟩ := by
  obtain ⟨fs, named, rfl, hnamed, hread⟩ := named_of_settle h
  have hfields := hread (fieldName? names) fun _ _ => fieldName?_of_settle names
  have hasked : (named.filter fun f => names.contains f.1) = named :=
    List.filter_eq_self.mpr fun e he => by
      simpa using hnamed.forall_fst (P := (· ∈ names)) hnames e he
  have hunique := Fields.unique?_of_nodup (hnamed.map_fst ▸ hnodup)
  refine ⟨named, hnamed, ?_⟩
  simp only [fields?, bare, hfields, Option.bind_eq_bind, Option.bind_some, hasked, hunique]

end Node

/-! ### Data that has a text -/

namespace Yaml

/-- The data has a text wherever it stands. -/
def Writable (d : Datum) : Prop := ∀ parent flush, (layout? parent flush d).isSome

theorem writable_str (s : String) : Writable (.str s) := fun _ _ => rfl

/-- A list has a text if its items have. -/
theorem writable_list {items : List Datum} (h : ∀ d ∈ items, Writable d) :
    Writable (.list items) := by
  have hlines : ∀ indent, (itemLines? indent items).isSome := fun indent => by
    induction items with
    | nil => rfl
    | cons d ds ih =>
      obtain ⟨item, hitem⟩ := Option.isSome_iff_exists.mp (h d List.mem_cons_self (some indent) false)
      obtain ⟨rest, hrest⟩ :=
        Option.isSome_iff_exists.mp (ih fun e he => h e (List.mem_cons_of_mem d he))
      simp [itemLines?, hitem, hrest]
  intro parent flush
  rw [layout?]
  split
  · rfl
  · rw [Option.isSome_map]
    exact hlines _

/-- A record has a text if its fields have. -/
theorem writable_record {fields : List (String × Datum)} (h : ∀ f ∈ fields, Writable f.2) :
    Writable (.record fields) := by
  have hlines : ∀ indent, (fieldLines? indent fields).isSome := fun indent => by
    induction fields with
    | nil => rfl
    | cons f fields ih =>
      obtain ⟨inline, hinline⟩ :=
        Option.isSome_iff_exists.mp (h f List.mem_cons_self (some indent) true)
      obtain ⟨own, hown⟩ := Option.isSome_iff_exists.mp (h f List.mem_cons_self (some indent) false)
      obtain ⟨rest, hrest⟩ :=
        Option.isSome_iff_exists.mp (ih fun e he => h e (List.mem_cons_of_mem f he))
      simp only [fieldLines?]
      split
      · simp [hinline, hrest]
      · simp [hown, hrest]
  intro parent flush
  rw [layout?]
  split
  · rfl
  · rw [Option.isSome_map]
    exact hlines _

/-- What is writable is written. -/
theorem Writable.exists_text {d : Datum} (h : Writable d) : ∃ text, write? d = some text := by
  rw [← Option.isSome_iff_exists, write?, Option.isSome_map]
  exact h none false

end Yaml

end PulseControl
