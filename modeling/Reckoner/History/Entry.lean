import Reckoner.Document
import Reckoner.Json.Printer
import Reckoner.Timestamp

/-!
# Entries of the history

One entry stands for one input that was run, with its results or its error.

* `History.Entry` — an entry;
* `Entry.text` — its written form, one JSON object, which leaves out an empty result and error;
* `Entry.ofJson?` — the entry that an object describes.
-/

namespace Reckoner.History

/-- An input that was run, and what came of it. -/
structure Entry where
  id : String := ""
  time : Timestamp := .zero
  source : String := ""
  result : String := ""
  error : String := ""

namespace Entry

/-- A field that is left out when it is empty. -/
def optionalField (name value : String) : List (String × Json) :=
  if value.isEmpty then [] else [(name, .string value)]

/-- An entry as an object. -/
def toJson (e : Entry) : Json :=
  .object ([("id", .string e.id), ("time", .string e.time.text), ("source", .string e.source)]
    ++ optionalField "result" e.result ++ optionalField "error" e.error)

/-- The written form. -/
def text (e : Entry) : String :=
  e.toJson.text

/-- An entry can be written only when its clock is less than a day off universal time. -/
def isWritable (e : Entry) : Bool :=
  e.time.offset.natAbs < 24 * 60

/-- The moment that a string gives. -/
def time? (j : Json) : Option Timestamp :=
  j.string?.bind Timestamp.read?

/-- A text, over the one there was. -/
def text? (old : String) (j : Json) : Option String :=
  Dialect.json.update Dialect.json.string? old j

/-- The fields of an entry. -/
def readers : List (String × (Entry → Json → Option Entry)) :=
  [("id", fun e j => (text? e.id j).map fun s => { e with id := s }),
    ("time", fun e j => (Dialect.json.update time? e.time j).map fun t => { e with time := t }),
    ("source", fun e j => (text? e.source j).map fun s => { e with source := s }),
    ("result", fun e j => (text? e.result j).map fun s => { e with result := s }),
    ("error", fun e j => (text? e.error j).map fun s => { e with error := s })]

/-- The entry that an object describes. -/
def ofJson? (j : Json) : Option Entry :=
  Dialect.json.record? readers {} j

end Entry
end Reckoner.History
