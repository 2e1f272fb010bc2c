import Reckoner.Json.Reader
import Reckoner.Text.Blank
import Reckoner.Text.Lines

/-!
# Configurations in BCL

Settings one on a line, `key = value`, where a value is a quoted text, an integer, a truth value, or
an opening brace: then the settings up to the closing brace belong to the key.

* `Bcl.step` — one line;
* `Bcl.read?` — the document of a text.
-/

namespace Reckoner.Bcl

open Text

/-- Blocks under construction: the settings of the innermost, the last first, and the keys of the
open blocks with the settings around them. -/
structure State where
  fields : List (String × Json) := []
  outer : List (String × List (String × Json)) := []

/-- A line without the blanks at its ends. -/
def trim (line : List Char) : List Char :=
  ((line.dropWhile isBlank).reverse.dropWhile isBlank).reverse

/-- A key and the text after its equals sign. -/
def keyValue? (line : List Char) : Option (String × List Char) :=
  match line.dropWhile (· != '=') with
  | [] => none
  | _ :: value =>
    let key := trim (line.takeWhile (· != '='))
    if key.isEmpty then none else some (String.ofList key, trim value)

/-- One line more. -/
def step (s : State) (line : List Char) : Option State :=
  match trim line with
  | [] => some s
  | '#' :: _ => some s
  | ['\x7d'] =>
    match s.outer with
    | [] => none
    | (key, fields) :: outer => some ⟨(key, .object s.fields.reverse) :: fields, outer⟩
  | line => do
    let (key, value) ← keyValue? line
    if value = ['\x7b'] then some ⟨[], (key, s.fields) :: s.outer⟩
    else some { s with fields := (key, ← Json.read? value) :: s.fields }

/-- The document of a text. -/
def read? (cs : List Char) : Option Json := do
  let s ← (lines cs).foldlM step {}
  if s.outer.isEmpty then some (.object s.fields.reverse) else none

end Reckoner.Bcl
