import Reckoner.Json.Basic
import Reckoner.Number.Reading

/-!
# Records from documents

A document is a tree of named settings. Its fields are taken in order, so of two with one name the
last wins; names that mean nothing are passed over, and a setting without a value keeps what it had.

* `Dialect` — how a format writes settings: how names are compared, and which parts of a document
  stand for a text, an integer or a truth value;
* `Dialect.update` — one setting, over the value it had;
* `Dialect.record?` — a record, by the readers of its settings;
* `Dialect.json`, `Dialect.exact` — the dialects of JSON values.
-/

namespace Reckoner

/-- How a format, whose documents are of type `δ`, writes settings. -/
structure Dialect (δ : Type) where
  /-- A name in a document is the name of a setting. -/
  sameKey : String → String → Bool
  /-- No value is given. -/
  isNull : δ → Bool
  /-- The named settings of a record. -/
  fields? : δ → Option (List (String × δ))
  /-- The text that a part of a document stands for. -/
  string? : δ → Option String
  /-- The integer that a part of a document stands for. -/
  int? : δ → Option Int
  /-- The truth value that a part of a document stands for. -/
  bool? : δ → Option Bool

namespace Dialect

variable {δ α : Type}

/-- A setting over the value it had. -/
def update (d : Dialect δ) (read : δ → Option α) (old : α) (document : δ) : Option α :=
  if d.isNull document then some old else read document

/-- Takes the fields of a record in order, each by the first reader under its name. -/
def record? (d : Dialect δ) (readers : List (String × (α → δ → Option α))) (start : α)
    (document : δ) : Option α :=
  if d.isNull document then some start
  else do
    (← d.fields? document).foldlM
      (fun acc (name, value) =>
        match readers.find? fun r => d.sameKey name r.1 with
        | some (_, read) => read acc value
        | none => some acc)
      start

/-! ## JSON -/

/-- An integer literal that fits into a word. -/
def wordOfLiteral? (literal : String) : Option Int :=
  (readInt literal).toOption.map Int64.toInt

/-- A dialect of JSON values, by its comparison of names. A value of another type than the setting's
is refused. -/
def ofJson (sameKey : String → String → Bool) : Dialect Json :=
  { sameKey
    isNull := fun
      | .null => true
      | _ => false
    fields? := Json.fields?
    string? := Json.string?
    int? := fun
      | .number literal => wordOfLiteral? literal
      | _ => none
    bool? := fun
      | .bool b => some b
      | _ => none }

/-- Names up to case. -/
def json : Dialect Json :=
  ofJson Json.sameKey

/-- Names as they are. -/
def exact : Dialect Json :=
  ofJson (· == ·)

end Dialect
end Reckoner
