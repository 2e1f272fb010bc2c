/-!
# Reading bytes as characters

`decodeBytes` reads UTF-8 and never fails: a byte that begins no well-formed character becomes the
replacement character U+FFFD, and reading goes on with the byte after it.

* `charAt?` — the well-formed character at the head of a list of bytes, with its length;
* `decodeBytes` — the whole text;
* `wellFormed` — no byte had to be replaced.
-/

namespace Reckoner.Text

/-- The replacement character. -/
def replacement : Char := Char.ofNat 0xFFFD

/-- The six payload bits of a continuation byte. -/
def continuation? (b : UInt8) : Option Nat :=
  if 0x80 ≤ b && b < 0xC0 then some (b.toNat - 0x80) else none

/-- The character with this code point, when it needs at least `least` to be written this long. -/
def scalar? (least n : Nat) : Option Char :=
  if least ≤ n && n.isValidChar then some (Char.ofNat n) else none

/-- The well-formed character at the head of the bytes, with the number of bytes it takes. -/
def charAt? : List UInt8 → Option (Char × Nat)
  | [] => none
  | b :: rest =>
    if b < 0x80 then some (Char.ofNat b.toNat, 1)
    else if b < 0xC0 then none
    else if b < 0xE0 then
      match rest with
      | b1 :: _ => do
        let c ← scalar? 0x80 ((b.toNat - 0xC0) * 64 + (← continuation? b1))
        return (c, 2)
      | _ => none
    else if b < 0xF0 then
      match rest with
      | b1 :: b2 :: _ => do
        let n := (b.toNat - 0xE0) * 4096 + (← continuation? b1) * 64 + (← continuation? b2)
        let c ← scalar? 0x800 n
        return (c, 3)
      | _ => none
    else if b < 0xF8 then
      match rest with
      | b1 :: b2 :: b3 :: _ => do
        let n := (b.toNat - 0xF0) * 262144 + (← continuation? b1) * 4096
          + (← continuation? b2) * 64 + (← continuation? b3)
        let c ← scalar? 0x10000 n
        return (c, 4)
      | _ => none
    else none

/-- Reads on from `bytes`, of which the first `skip` belong to a character already read. -/
def decodeFrom : (skip : Nat) → (bytes : List UInt8) → (read : List Char) → List Char
  | _, [], read => read.reverse
  | skip + 1, _ :: rest, read => decodeFrom skip rest read
  | 0, b :: rest, read =>
    match charAt? (b :: rest) with
    | some (c, length) => decodeFrom (length - 1) rest (c :: read)
    | none => decodeFrom 0 rest (replacement :: read)

/-- The characters of UTF-8 bytes, each byte that begins no character replaced. -/
def decodeBytes (bytes : List UInt8) : List Char :=
  decodeFrom 0 bytes []

/-- The bytes of a text. -/
def encodeText (s : String) : List UInt8 :=
  s.toUTF8.toList

/-- The bytes are the UTF-8 form of a text. -/
def wellFormed (bytes : List UInt8) : Bool :=
  encodeText (String.ofList (decodeBytes bytes)) == bytes

end Reckoner.Text
