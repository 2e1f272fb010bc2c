import Reckoner.Json.Basic
import Reckoner.Number.Reading
import Reckoner.Text.Utf8

/-!
# Reading JSON

A machine that takes one character at a time. It remembers the arrays and objects that are still
open and what may come next, and refuses a character as soon as no document goes on with it, so
reading a text in two parts is reading the first and then the second. The documents are those of the
grammar of JSON; as a decoder it stands for a package that is not part of the program, and
`History.Codec` is where another one can take its place.

* `Reader.Mode` — what the machine is in the middle of;
* `Reader.step` — one character;
* `Json.read?` — the value of a whole text.
-/

namespace Reckoner.Json

open Text (isDigit replacement)

namespace Reader

/-- A piece of a string under construction: a character as it stands, or the code that an escape
names, which may be half of a surrogate pair. -/
inductive Piece where
  | char (c : Char)
  | escape (code : Nat)

/-- An array or object that is still open, with what it holds so far, the last first. -/
inductive Frame where
  | array (items : List Json)
  | object (fields : List (String × Json)) (key : String)

/-- What the machine is in the middle of. -/
inductive Mode where
  /-- A value must come. -/
  | value
  /-- A value or the end of an array just opened. -/
  | firstItem
  /-- A field name or the end of an object just opened, or, after a comma, a field name only. -/
  | key (fields : List (String × Json)) (mayEnd : Bool)
  /-- The colon after a field name. -/
  | colon (fields : List (String × Json)) (name : String)
  /-- A value is complete. -/
  | after (value : Json)
  /-- Inside a string: a field name of the object with these fields, or a value. -/
  | string (fields : Option (List (String × Json))) (read : List Piece)
  /-- After a backslash. -/
  | escape (fields : Option (List (String × Json))) (read : List Piece)
  /-- Inside an escape in hexadecimal digits, of which `left` are still to come. -/
  | code (fields : Option (List (String × Json))) (read : List Piece) (left : Nat) (n : Nat)
  /-- Inside a number. -/
  | number (read : List Char)
  /-- Inside one of the three words, of which `rest` is still to come. -/
  | word (rest : List Char) (value : Json)

/-- The machine: open arrays and objects, how many more may be opened, and the mode. -/
structure State where
  mode : Mode := .value
  frames : List Frame := []
  room : Nat := 10000

/-- The four blanks between the parts of a document. -/
def isSpace (c : Char) : Bool :=
  c == ' ' || c == '\t' || c == '\n' || c == '\r'

/-- The character that a code stands for on its own; half of a pair is replaced. -/
def charOfCode (n : Nat) : Char :=
  if 0xD800 ≤ n && n < 0xE000 then replacement else Char.ofNat n

/-- Pieces joined into text: two halves of a pair, one after the other, make one character. -/
def joinPieces : List Piece → List Char
  | [] => []
  | .char c :: rest => c :: joinPieces rest
  | .escape high :: .escape low :: rest =>
    if 0xD800 ≤ high && high < 0xDC00 && 0xDC00 ≤ low && low < 0xE000 then
      Char.ofNat (0x10000 + (high - 0xD800) * 1024 + (low - 0xDC00)) :: joinPieces rest
    else charOfCode high :: joinPieces (.escape low :: rest)
  | .escape n :: rest => charOfCode n :: joinPieces rest

/-- What a letter after a backslash stands for. -/
def shortEscape? (c : Char) : Option Char :=
  match c with
  | '"' => some '"'
  | '\\' => some '\\'
  | '/' => some '/'
  | 'b' => some (Char.ofNat 8)
  | 'f' => some (Char.ofNat 12)
  | 'n' => some '\n'
  | 'r' => some '\r'
  | 't' => some '\t'
  | _ => none

/-- The exponent of a number, or nothing. -/
def isExponent : List Char → Bool
  | [] => true
  | c :: rest =>
    (c == 'e' || c == 'E') &&
      match rest with
      | '+' :: ds => !ds.isEmpty && ds.all isDigit
      | '-' :: ds => !ds.isEmpty && ds.all isDigit
      | ds => !ds.isEmpty && ds.all isDigit

/-- The fraction and exponent of a number, or nothing. -/
def isFractionExponent : List Char → Bool
  | '.' :: rest =>
    !(rest.takeWhile isDigit).isEmpty && isExponent (rest.dropWhile isDigit)
  | cs => isExponent cs

/-- A number without its sign: no leading zeros, and digits on both sides of a point. -/
def isUnsignedNumber : List Char → Bool
  | [] => false
  | '0' :: rest => isFractionExponent rest
  | c :: rest => isDigit c && isFractionExponent (rest.dropWhile isDigit)

/-- The literal of a number. -/
def isNumber : List Char → Bool
  | '-' :: rest => isUnsignedNumber rest
  | cs => isUnsignedNumber cs

/-- A character that can stand in a number. -/
def isNumberChar (c : Char) : Bool :=
  isDigit c || c == '+' || c == '-' || c == '.' || c == 'e' || c == 'E'

/-- A value begins. -/
def beginValue (s : State) (c : Char) : Option State :=
  match c with
  | '\x7b' => if s.room = 0 then none else some { s with mode := .key [] true, room := s.room - 1 }
  | '[' =>
    if s.room = 0 then none
    else some { s with mode := .firstItem, frames := .array [] :: s.frames, room := s.room - 1 }
  | '"' => some { s with mode := .string none [] }
  | 't' => some { s with mode := .word ['r', 'u', 'e'] (.bool true) }
  | 'f' => some { s with mode := .word ['a', 'l', 's', 'e'] (.bool false) }
  | 'n' => some { s with mode := .word ['u', 'l', 'l'] .null }
  | c => if isDigit c || c == '-' then some { s with mode := .number [c] } else none

/-- A character after a complete value: it goes on with or closes the innermost open array or
object. -/
def afterValue (s : State) (v : Json) (c : Char) : Option State :=
  if isSpace c then some { s with mode := .after v }
  else
    match s.frames, c with
    | .array items :: frames, ',' =>
      some { s with mode := .value, frames := .array (v :: items) :: frames }
    | .array items :: frames, ']' =>
      some { mode := .after (.array (v :: items).reverse), frames, room := s.room + 1 }
    | .object fields key :: frames, ',' =>
      some { s with mode := .key ((key, v) :: fields) false, frames }
    | .object fields key :: frames, '\x7d' =>
      some { mode := .after (.object ((key, v) :: fields).reverse), frames, room := s.room + 1 }
    | _, _ => none

/-- A string is complete. -/
def endString (s : State) (fields : Option (List (String × Json))) (read : List Piece) : State :=
  let text := String.ofList (joinPieces read.reverse)
  match fields with
  | none => { s with mode := .after (.string text) }
  | some fields => { s with mode := .colon fields text }

/-- One character. -/
def step (s : State) (c : Char) : Option State :=
  match s.mode with
  | .value => if isSpace c then some s else beginValue s c
  | .firstItem =>
    if isSpace c then some s
    else if c == ']' then
      some { mode := .after (.array []), frames := s.frames.drop 1, room := s.room + 1 }
    else beginValue s c
  | .key fields mayEnd =>
    if isSpace c then some s
    else if c == '"' then some { s with mode := .string (some fields) [] }
    else if mayEnd && c == '\x7d' then
      some { s with mode := .after (.object []), room := s.room + 1 }
    else none
  | .colon fields name =>
    if isSpace c then some s
    else if c == ':' then
      some { s with mode := .value, frames := .object fields name :: s.frames }
    else none
  | .after v => afterValue s v c
  | .string fields read =>
    if c == '"' then some (endString s fields read)
    else if c == '\\' then some { s with mode := .escape fields read }
    else if c.toNat < 32 then none
    else some { s with mode := .string fields (.char c :: read) }
  | .escape fields read =>
    if c == 'u' then some { s with mode := .code fields read 4 0 }
    else (shortEscape? c).map fun e => { s with mode := .string fields (.escape e.toNat :: read) }
  | .code fields read left n =>
    (Fraction.hexValue? c).map fun d =>
      let n := n * 16 + d
      if left ≤ 1 then { s with mode := .string fields (.escape n :: read) }
      else { s with mode := .code fields read (left - 1) n }
  | .number read =>
    if isNumberChar c then some { s with mode := .number (c :: read) }
    else if isNumber read.reverse then
      afterValue s (.number (String.ofList read.reverse)) c
    else none
  | .word rest v =>
    match rest with
    | [] => none
    | d :: more =>
      if c == d then
        some { s with mode := if more.isEmpty then .after v else .word more v }
      else none

/-- The value of a document that ends here. -/
def finish? (s : State) : Option Json :=
  match s.mode, s.frames with
  | .after v, [] => some v
  | .number read, [] =>
    if isNumber read.reverse then some (.number (String.ofList read.reverse)) else none
  | _, _ => none

end Reader

/-- The value of a whole text. -/
def read? (cs : List Char) : Option Json :=
  (cs.foldlM Reader.step {}).bind Reader.finish?

/-- The value of a whole text of bytes. -/
def readBytes? (bytes : List UInt8) : Option Json :=
  read? (Text.decodeBytes bytes)

end Reckoner.Json
