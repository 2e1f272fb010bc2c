/-!
# JSON values

Objects keep their fields in the order of writing, duplicates included, and numbers keep their
literal, so that each reader of a document decides what they mean.

* `Json` — a value;
* `Json.sameKey` — the comparison of field names, which ignores case;
* `Json.fields?`, `Json.items?`, `Json.string?` — what a value is, if it is that.
-/

namespace Reckoner

/-- A JSON value. -/
inductive Json where
  | null
  | bool (value : Bool)
  | number (literal : String)
  | string (value : String)
  | array (items : List Json)
  | object (fields : List (String × Json))

namespace Json

/-- The text of a string. -/
def string? : Json → Option String
  | .string s => some s
  | _ => none

/-- The elements of an array. -/
def items? : Json → Option (List Json)
  | .array items => some items
  | _ => none

/-- The fields of an object. -/
def fields? : Json → Option (List (String × Json))
  | .object fields => some fields
  | _ => none

/-- The value of the first field with exactly this name. -/
def field? (j : Json) (name : String) : Option Json :=
  j.fields?.bind fun fields => fields.lookup name

/-- Upper case of the characters that case-insensitive field names know: ASCII letters, the long s
and the Kelvin sign. -/
def foldChar (c : Char) : Char :=
  if 'a' ≤ c && c ≤ 'z' then Char.ofNat (c.toNat - 32)
  else if c.toNat == 0x17F then 'S'
  else if c.toNat == 0x212A then 'K'
  else c

/-- Two field names are the same up to case. -/
def sameKey (a b : String) : Bool :=
  a.toList.map foldChar == b.toList.map foldChar

end Json
end Reckoner
