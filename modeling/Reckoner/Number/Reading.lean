import Reckoner.Number.Binary
import Reckoner.Number.Decimal
import Reckoner.Number.Word
import Reckoner.Text.Letter
import Reckoner.Text.Quoted

/-!
# Reading numbers from text

* `readInt` — a 64-bit integer: an optional sign and decimal digits;
* `readFloat` — a binary number: an infinity, not-a-number, or a decimal or hexadecimal fraction
  with an optional exponent, in which underscores may stand between digits;
* `ReadError` — what is wrong with a text that is no number.
-/

namespace Reckoner

open Text (isDigit quoted)
open Decimal (digitValue)

/-- What kind of number was to be read. -/
inductive Reading where
  | int
  | float

/-- Why a text is not read. -/
inductive Misfit where
  | form
  | range

/-- A text that is not a number of the wanted kind. -/
structure ReadError where
  reading : Reading
  misfit : Misfit
  text : String

/-- The function named in the message for a kind of number. -/
def Reading.name : Reading → String
  | .int => "strconv.ParseInt"
  | .float => "strconv.ParseFloat"

/-- The reason given in the message. -/
def Misfit.describe : Misfit → String
  | .form => "invalid syntax"
  | .range => "value out of range"

/-- The message about a text that is no number. -/
def ReadError.message (e : ReadError) : String :=
  e.reading.name ++ ": parsing " ++ quoted e.text ++ ": " ++ e.misfit.describe

/-- A sign, if there is one, and what follows: `true` for a minus. -/
def readSign : List Char → Bool × List Char
  | '-' :: rest => (true, rest)
  | '+' :: rest => (false, rest)
  | cs => (false, cs)

/-! ## Integers -/

/-- The number that digits write, after `n` was read. It is out of range as soon as it takes more
than sixty-four bits, whatever follows. -/
def readMagnitude : List Char → (n : Nat) → Except Misfit Nat
  | [], n => .ok n
  | c :: rest, n =>
    if !isDigit c then .error .form
    else if 0x10000000000000000 ≤ n * 10 + digitValue c then .error .range
    else readMagnitude rest (n * 10 + digitValue c)

/-- A 64-bit integer in decimal. -/
def readIntChars (cs : List Char) : Except Misfit Int64 :=
  let (negative, ds) := readSign cs
  if ds.isEmpty then .error .form
  else
    match readMagnitude ds 0 with
    | .error misfit => .error misfit
    | .ok n =>
      match Word.ofInt? (if negative then -(n : Int) else n) with
      | some i => .ok i
      | none => .error .range

/-- A 64-bit integer in decimal. -/
def readInt (s : String) : Except ReadError Int64 :=
  match readIntChars s.toList with
  | .ok i => .ok i
  | .error misfit => .error ⟨.int, misfit, s⟩

/-! ## Binary numbers -/

namespace Fraction

/-- The base of a fraction's digits. -/
inductive Base where
  | ten
  | sixteen
  deriving DecidableEq

/-- The value of a hexadecimal digit. -/
def hexValue? (c : Char) : Option Nat :=
  if isDigit c then some (digitValue c)
  else if 'a' ≤ c && c ≤ 'f' then some (c.toNat - 87)
  else if 'A' ≤ c && c ≤ 'F' then some (c.toNat - 55)
  else none

/-- The value of a digit in the base. -/
def Base.value? : Base → Char → Option Nat
  | .ten, c => if isDigit c then some (digitValue c) else none
  | .sixteen, c => hexValue? c

/-- The number of a base. -/
def Base.size : Base → Nat
  | .ten => 10
  | .sixteen => 16

/-- Digits read so far: the number they write, how many there are, and how many of them stand after
the point. -/
structure Mantissa where
  number : Nat := 0
  digits : Nat := 0
  afterPoint : Nat := 0
  pointSeen : Bool := false

/-- Digits, underscores and at most one point. -/
def readMantissa (base : Base) : List Char → Mantissa → Mantissa × List Char
  | [], m => (m, [])
  | c :: rest, m =>
    if c == '_' then readMantissa base rest m
    else if c == '.' then
      if m.pointSeen then (m, c :: rest) else readMantissa base rest { m with pointSeen := true }
    else
      match base.value? c with
      | some d =>
        readMantissa base rest
          { m with
            number := m.number * base.size + d
            digits := m.digits + 1
            afterPoint := if m.pointSeen then m.afterPoint + 1 else m.afterPoint }
      | none => (m, c :: rest)

/-- The digits of an exponent; past ten thousand further digits change nothing. -/
def readExponentDigits : List Char → Nat → Nat × List Char
  | [], n => (n, [])
  | c :: rest, n =>
    if c == '_' then readExponentDigits rest n
    else if isDigit c then
      readExponentDigits rest (if n < 10000 then n * 10 + digitValue c else n)
    else (n, c :: rest)

/-- The exponent after its mark, which needs a digit right after the sign. -/
def readExponent? (cs : List Char) : Option (Int × List Char) :=
  let (negative, ds) := readSign cs
  match ds with
  | [] => none
  | c :: _ =>
    if isDigit c then
      let (n, rest) := readExponentDigits ds 0
      some (if negative then -(n : Int) else n, rest)
    else none

/-- What the last character was, for the rule on underscores. -/
inductive Before where
  | start
  | digit
  | underscore
  | other
  deriving DecidableEq

/-- Every underscore has a digit before it and a digit after it. -/
def underscoresFit (base : Base) : List Char → Before → Bool
  | [], before => before != .underscore
  | c :: rest, before =>
    if (base.value? c).isSome then underscoresFit base rest .digit
    else if c == '_' then before == .digit && underscoresFit base rest .underscore
    else before != .underscore && underscoresFit base rest .other

/-- The mark of an exponent in the base. -/
def Base.isExponentMark : Base → Char → Bool
  | .ten, c => c == 'e' || c == 'E'
  | .sixteen, c => c == 'p' || c == 'P'

/-- The binary number nearest to `number * 10 ^ exponent`. Decimals far outside the range of the
format are settled before they are computed. -/
def decimalValue (number : Nat) (exponent : Int) : Float :=
  if number = 0 then 0.0
  else
    let point := (Decimal.digits number).length + exponent
    if 310 < point then Binary.infinity
    else if point < -330 then 0.0
    else if 0 ≤ exponent then Float.ofNat (number * Nat.pow 10 exponent.toNat)
    else Float.ofScientific number true exponent.natAbs

/-- A decimal or hexadecimal fraction without its sign. A hexadecimal one must have an exponent. -/
def read (base : Base) (cs : List Char) : Except Misfit Float :=
  let (m, rest) := readMantissa base cs {}
  if m.digits = 0 then .error .form
  else
    let before := if base = .sixteen then Before.digit else .start
    if cs.contains '_' && !underscoresFit base cs before then .error .form
    else
      let exponent? : Option Int :=
        match rest with
        | [] => if base = .sixteen then none else some 0
        | mark :: more =>
          if base.isExponentMark mark then
            match readExponent? more with
            | some (e, []) => some e
            | _ => none
          else none
      match exponent? with
      | none => .error .form
      | some e =>
        let value :=
          match base with
          | .ten => decimalValue m.number (e - m.afterPoint)
          | .sixteen => Binary.scaled m.number (e - 4 * m.afterPoint)
        if value.isInf then .error .range else .ok value

end Fraction

/-- The letters of a word in either case. -/
def sameWord (cs : List Char) (word : String) : Bool :=
  cs.map Char.toLower == word.toList

/-- A binary number. An infinity may have a sign, not-a-number may not. -/
def readFloatChars (cs : List Char) : Except Misfit Float :=
  let (negative, rest) := readSign cs
  if sameWord rest "inf" || sameWord rest "infinity" then
    .ok (Binary.withSign negative Binary.infinity)
  else if sameWord cs "nan" then .ok Binary.nanValue
  else
    let unsigned :=
      match rest with
      | '0' :: x :: c :: more =>
        if x == 'x' || x == 'X' then Fraction.read .sixteen (c :: more)
        else Fraction.read .ten rest
      | _ => Fraction.read .ten rest
    match unsigned with
    | .ok x => .ok (Binary.withSign negative x)
    | .error misfit => .error misfit

/-- A binary number. -/
def readFloat (s : String) : Except ReadError Float :=
  match readFloatChars s.toList with
  | .ok x => .ok x
  | .error misfit => .error ⟨.float, misfit, s⟩

end Reckoner
