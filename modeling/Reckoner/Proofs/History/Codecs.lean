import Reckoner.History.File
import Reckoner.Proofs.Json.Texts
import Reckoner.Proofs.Timestamps

/-!
# What a history relies on of its codec

Whatever package writes and reads the entries, a history relies on little of it: that an entry is
written as an object, that what is read as entries is an array of values that each stand for one,
and that an entry that was written stands for itself. These are the laws of a codec. They say
nothing of how an entry is made into an object, nor of which values stand for entries otherwise.

* `Codec.Writes` — entries are written as objects;
* `Codec.Lawful` — the laws of a codec;
* `Codec.json_lawful` — they hold of entries that are written field by field;
* `entryTexts_eq_ok`, `entryTexts_eq_error` — the texts of entries, or the first that has none.
-/

namespace Reckoner

open Json.Reader

/-! ## Laws -/

namespace History

/-- Every entry that has a text is written as the object that it is given. -/
def Codec.Writes (codec : Codec) (object : Entry → Json) : Prop :=
  ∀ {e : Entry} {text : String}, codec.marshal e = .ok text → IsObjectText text (object e)

/-- The laws of a codec that writes entries as these objects, and reads entries from the values that
stand for them. -/
structure Codec.Lawful (codec : Codec) (object : Entry → Json) (ofItem? : Json → Option Entry) :
    Prop where
  writes : codec.Writes object
  /-- What is read is nothing, or an array whose items all stand for entries. -/
  reads : ∀ {content : Content} {es : List Entry}, codec.unmarshal content = some es ↔
    (Json.readBytes? content = some .null ∧ es = []) ∨
      ∃ items, Json.readBytes? content = some (.array items) ∧ items.mapM ofItem? = some es
  /-- An entry that was written stands for itself. -/
  inverts : ∀ {e : Entry} {text : String}, codec.marshal e = .ok text → ofItem? (object e) = some e

/-! ## Texts of entries -/

section

variable {codec : Codec} {es : List Entry} {texts : List String}

theorem entryTexts_cons (codec : Codec) (e : Entry) (es : List Entry) :
    entryTexts codec (e :: es) =
      match codec.marshal e, entryTexts codec es with
      | .error reason, _ => .error (.unwritable reason)
      | .ok _, .error error => .error error
      | .ok text, .ok texts => .ok (text :: texts) := by
  unfold entryTexts
  rw [List.mapM_cons]
  cases codec.marshal e with
  | error reason => rfl
  | ok text => cases es.mapM fun e => (codec.marshal e).mapError Error.unwritable <;> rfl

theorem entryTexts_eq_ok (h : entryTexts codec es = .ok texts) :
    List.Forall₂ (fun e text => codec.marshal e = .ok text) es texts := by
  induction es generalizing texts with
  | nil =>
      cases h
      exact .nil
  | cons e es ih =>
      rw [entryTexts_cons] at h
      split at h
      · cases h
      · cases h
      · next hfirst hrest =>
        cases h
        exact .cons hfirst (ih hrest)

theorem entryTexts_eq_error {error : Error} (h : entryTexts codec es = .error error) :
    ∃ e ∈ es, ∃ reason, codec.marshal e = .error reason ∧ error = .unwritable reason := by
  induction es with
  | nil => cases h
  | cons e es ih =>
      rw [entryTexts_cons] at h
      split at h
      · next hfirst =>
        cases h
        exact ⟨e, List.mem_cons_self, _, hfirst, rfl⟩
      · next hrest =>
        cases h
        rcases ih hrest with ⟨e', hmem, hreason⟩
        exact ⟨e', List.mem_cons_of_mem e hmem, hreason⟩
      · cases h

/-- Entries that all have texts are written. -/
theorem exists_entryTexts (h : ∀ e ∈ es, ∃ text, codec.marshal e = .ok text) :
    ∃ texts, entryTexts codec es = .ok texts := by
  cases htexts : entryTexts codec es with
  | ok texts => exact ⟨texts, rfl⟩
  | error error =>
      rcases entryTexts_eq_error htexts with ⟨e, he, reason, hreason, -⟩
      rcases h e he with ⟨text, htext⟩
      rw [htext] at hreason
      cases hreason

theorem Codec.Writes.forall₂ {object : Entry → Json} (h : codec.Writes object)
    (htexts : List.Forall₂ (fun e text => codec.marshal e = .ok text) es texts) :
    List.Forall₂ IsObjectText texts (es.map object) := by
  induction htexts with
  | nil => exact .nil
  | cons hfirst _ ih => exact .cons (h hfirst) ih

/-- Entries that were written are read from their objects. -/
theorem Codec.Lawful.mapM_object {object : Entry → Json} {ofItem? : Json → Option Entry}
    (h : codec.Lawful object ofItem?)
    (htexts : List.Forall₂ (fun e text => codec.marshal e = .ok text) es texts) :
    (es.map object).mapM ofItem? = some es := by
  induction htexts with
  | nil => rfl
  | cons hfirst _ ih => simp [h.inverts hfirst, ih]

end

end History

/-! ## Records -/

namespace Dialect

variable {δ α : Type} {d : Dialect δ} {readers : List (String × (α → δ → Option α))}

/-- One field of a record, over what the fields before it make. -/
def readField (d : Dialect δ) (readers : List (String × (α → δ → Option α))) (acc : α)
    (field : String × δ) : Option α :=
  match readers.find? fun r => d.sameKey field.1 r.1 with
  | some (_, read) => read acc field.2
  | none => some acc

theorem record?_eq_foldlM {document : δ} {fields : List (String × δ)}
    (hnull : d.isNull document = false) (hfields : d.fields? document = some fields) (start : α) :
    d.record? readers start document = fields.foldlM (d.readField readers) start := by
  rw [record?, if_neg (by simp [hnull]), hfields]
  rfl

/-- A field is read by the reader under its name. -/
theorem readField_of_find? {name : String} {i : Nat} {reader : String × (α → δ → Option α)}
    (hfind : readers.find? (fun r => d.sameKey name r.1) = readers[i]?)
    (hreader : readers[i]? = some reader) {acc : α} {document : δ} {result : Option α}
    (hread : reader.2 acc document = result) :
    d.readField readers acc (name, document) = result := by
  rw [readField, hfind, hreader, ← hread]

end Dialect

namespace History

/-! ## Entries as objects -/

namespace Entry

/-- A field that is left out when it is empty, over an entry that has no text in its place. -/
theorem foldlM_optionalField {name text : String} {e e' : Entry} (hempty : text = "" → e' = e)
    (hread : Dialect.json.readField readers e (name, .string text) = some e') :
    (optionalField name text).foldlM (Dialect.json.readField readers) e = some e' := by
  unfold optionalField
  split
  · next htext =>
    rw [hempty (by simpa using htext)]
    rfl
  · rw [List.foldlM_cons, hread]
    rfl

/-- An entry is read as it is written. -/
theorem ofJson?_toJson {e : Entry} (h : e.isWritable) : ofJson? e.toJson = some e := by
  have hread : Timestamp.read? e.time.text = some e.time :=
    Timestamp.read?_text (by simpa [isWritable] using h)
  have hid (a : Entry) (s : String) :
      Dialect.json.readField readers a ("id", .string s) = some { a with id := s } :=
    Dialect.readField_of_find? (i := 0) rfl rfl rfl
  have htime (a : Entry) (s : String) : Dialect.json.readField readers a ("time", .string s) =
      (Timestamp.read? s).map fun t => { a with time := t } :=
    Dialect.readField_of_find? (i := 1) rfl rfl rfl
  have hsource (a : Entry) (s : String) :
      Dialect.json.readField readers a ("source", .string s) = some { a with source := s } :=
    Dialect.readField_of_find? (i := 2) rfl rfl rfl
  have hresult (a : Entry) (s : String) :
      Dialect.json.readField readers a ("result", .string s) = some { a with result := s } :=
    Dialect.readField_of_find? (i := 3) rfl rfl rfl
  have herror (a : Entry) (s : String) :
      Dialect.json.readField readers a ("error", .string s) = some { a with error := s } :=
    Dialect.readField_of_find? (i := 4) rfl rfl rfl
  rw [toJson, ofJson?, Dialect.record?_eq_foldlM rfl rfl, List.foldlM_append, List.foldlM_append]
  simp only [List.foldlM_cons, List.foldlM_nil, hid, htime, hread, hsource, Option.map_some,
    Option.bind_eq_bind, Option.bind_some, Option.pure_def]
  rw [foldlM_optionalField (by intro hs; rw [hs]) (hresult _ _), Option.bind_some,
    foldlM_optionalField (by intro hs; rw [hs]) (herror _ _)]

theorem isObjectText_text (e : Entry) : IsObjectText e.text e.toJson := by
  have hoptional (name value : String) :
      ∀ field ∈ optionalField name value, ∃ text, field.2 = .string text := by
    intro field hfield
    unfold optionalField at hfield
    split at hfield
    · cases hfield
    · exact ⟨value, by rw [List.mem_singleton.1 hfield]⟩
  refine Json.Reader.isObjectText_text (by simp) ?_
  simp only [List.forall_mem_append]
  exact ⟨⟨by simp, hoptional _ _⟩, hoptional _ _⟩

end Entry

namespace Codec

theorem marshal_json_eq_ok {e : Entry} {text : String} (h : json.marshal e = .ok text) :
    e.isWritable ∧ e.text = text := by
  dsimp only [json] at h
  split at h
  · next hwritable =>
    cases h
    exact ⟨hwritable, rfl⟩
  · cases h

/-- Entries as objects of an array obey the laws. -/
theorem json_lawful : json.Lawful Entry.toJson Entry.ofJson? where
  writes h := by
    obtain ⟨-, rfl⟩ := marshal_json_eq_ok h
    exact Entry.isObjectText_text _
  reads {content es} := by
    dsimp only [json]
    split
    · next hread => simp [hread, eq_comm]
    · next items hread => simp [hread]
    · next hnull harray =>
      have hnone (items : List Json) : Json.readBytes? content ≠ some (.array items) :=
        harray items
      simp [hnone, show Json.readBytes? content ≠ some .null from hnull]
  inverts h := Entry.ofJson?_toJson (marshal_json_eq_ok h).1

end Codec

end History
end Reckoner
