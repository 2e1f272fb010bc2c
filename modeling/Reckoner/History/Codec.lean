import Reckoner.Files
import Reckoner.History.Entry
import Reckoner.Json.Reader

/-!
# How the history is written

The history is kept in JSON, and a package that is not part of the program writes and reads it. All
that the program knows of it is a codec.

* `Codec` — what the package does with entries and with contents;
* `Codec.json` — a codec that writes each entry as one object.
-/

namespace Reckoner.History

/-- How entries are written and read. -/
structure Codec where
  /-- The text of an entry, or the reason why it has none. -/
  marshal : Entry → Except String String
  /-- The entries that a content stands for, if it stands for any. -/
  unmarshal : Content → Option (List Entry)

namespace Codec

/-- Why an entry cannot be written whose clock is a day or more off universal time. -/
def farClock : String :=
  "json: error calling MarshalJSON for type *time.Time: timezone hour outside of range [0,23]"

/-- Entries as objects of an array. -/
def json : Codec where
  marshal e := if e.isWritable then .ok e.text else .error farClock
  unmarshal content :=
    match Json.readBytes? content with
    | some .null => some []
    | some (.array items) => items.mapM Entry.ofJson?
    | _ => none

end Codec
end Reckoner.History
