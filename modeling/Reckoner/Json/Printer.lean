import Reckoner.Json.Basic
import Reckoner.Text.Quoted

/-!
# Writing JSON

The compact form: no blanks, and inside strings everything escaped that could end the string, break
a line or be taken for markup. It stands for a package that is not part of the program. The
history file is written through a `History.Codec`, of which this is one, so what is proved of it
holds for any that keeps the laws of `History.Codec.Lawful`.
-/

namespace Reckoner.Json

open Text (hex)

/-- How one character stands inside a string. -/
def escapedChar (c : Char) : List Char :=
  match c with
  | '"' => ['\\', '"']
  | '\\' => ['\\', '\\']
  | '\n' => ['\\', 'n']
  | '\r' => ['\\', 'r']
  | '\t' => ['\\', 't']
  | c =>
    match c.toNat with
    | 8 => ['\\', 'b']
    | 12 => ['\\', 'f']
    | n =>
      if n < 32 || c == '<' || c == '>' || c == '&' || n == 0x2028 || n == 0x2029 then
        '\\' :: 'u' :: hex 4 n
      else [c]

/-- A string between double quotes. -/
def stringText (s : String) : String :=
  String.ofList ('"' :: s.toList.flatMap escapedChar ++ ['"'])

mutual

/-- The compact text of a value. -/
def text : Json → String
  | .null => "null"
  | .bool b => if b then "true" else "false"
  | .number literal => literal
  | .string s => stringText s
  | .array items => "[" ++ ",".intercalate (texts items) ++ "]"
  | .object fields => "\x7b" ++ ",".intercalate (fieldTexts fields) ++ "\x7d"

/-- The compact texts of the elements of an array. -/
def texts : List Json → List String
  | [] => []
  | j :: rest => j.text :: texts rest

/-- The compact texts of the fields of an object. -/
def fieldTexts : List (String × Json) → List String
  | [] => []
  | (name, j) :: rest => (stringText name ++ ":" ++ j.text) :: fieldTexts rest

end

end Reckoner.Json
