import Reckoner.Number.Decimal
import Reckoner.Text.Letter

/-!
# Timestamps

A moment as a calendar shows it: date, time of day to the nanosecond, and the distance from
universal time in minutes, which may be a little more than a day. The written form is
`2024-01-02T03:04:05.6+02:00`, where the fraction has no zeros at its end and universal time itself
is marked by `Z`.

* `Timestamp.text` — the written form;
* `Timestamp.read?` — the timestamp of a text, which may also write the hour with one digit, set off
  the fraction by a comma and give more digits than count;
* `Timestamp.ofUnix` — the timestamp of a clock that counts seconds.
-/

namespace Reckoner

open Text (isDigit)
open Decimal (digits ofDigits)

/-- The days of a month. -/
def daysIn (year month : Nat) : Nat :=
  if month = 2 then
    if year % 4 = 0 ∧ (year % 100 ≠ 0 ∨ year % 400 = 0) then 29 else 28
  else if month = 4 ∨ month = 6 ∨ month = 9 ∨ month = 11 then 30
  else 31

/-- A moment as a calendar shows it. -/
structure Timestamp where
  year : Nat := 1
  month : Nat := 1
  day : Nat := 1
  hour : Nat := 0
  minute : Nat := 0
  second : Nat := 0
  nanosecond : Nat := 0
  /-- Minutes that the clock is ahead of universal time. -/
  offset : Int := 0
  valid : year < 10000 ∧ (1 ≤ month ∧ month ≤ 12) ∧ (1 ≤ day ∧ day ≤ daysIn year month)
    ∧ hour < 24 ∧ minute < 60 ∧ second < 60 ∧ nanosecond < 1000000000
    ∧ offset.natAbs ≤ 25 * 60 := by
    decide

namespace Timestamp

/-- The first moment of the first year, which stands for no moment. -/
def zero : Timestamp := {}

/-! ## Writing -/

/-- A number with zeros before it up to a width. -/
def padded (width n : Nat) : List Char :=
  List.replicate (width - (digits n).length) '0' ++ digits n

/-- The fraction of a second with the point before it; nothing for a whole second. -/
def fractionText (nanosecond : Nat) : List Char :=
  if nanosecond = 0 then []
  else '.' :: ((padded 9 nanosecond).reverse.dropWhile (· == '0')).reverse

/-- The distance from universal time. -/
def offsetText (offset : Int) : List Char :=
  if offset = 0 then ['Z']
  else
    (if offset < 0 then '-' else '+') :: padded 2 (offset.natAbs / 60)
      ++ ':' :: padded 2 (offset.natAbs % 60)

/-- The written form. -/
def text (t : Timestamp) : String :=
  String.ofList (padded 4 t.year ++ '-' :: padded 2 t.month ++ '-' :: padded 2 t.day
    ++ 'T' :: padded 2 t.hour ++ ':' :: padded 2 t.minute ++ ':' :: padded 2 t.second
    ++ fractionText t.nanosecond ++ offsetText t.offset)

/-! ## Reading -/

/-- A number of exactly `width` digits at the head of a text, and what follows it. -/
def fixed? (width : Nat) (cs : List Char) : Option (Nat × List Char) :=
  let ds := cs.take width
  if ds.length = width ∧ ds.all isDigit then some (ofDigits ds, cs.drop width) else none

/-- What follows a mark at the head of a text. -/
def mark? (mark : Char) : List Char → Option (List Char)
  | [] => none
  | c :: rest => if c = mark then some rest else none

/-- An hour of one or two digits, and what follows it. -/
def hour? (cs : List Char) : Option (Nat × List Char) :=
  (fixed? 2 cs).or (fixed? 1 cs)

/-- The nanoseconds of a fraction at the head of a text, none when there is no fraction, and what
follows it. Only the first nine digits count. -/
def takeFraction (cs : List Char) : Nat × List Char :=
  match cs with
  | c :: rest =>
    let ds := rest.takeWhile isDigit
    if (c = '.' ∨ c = ',') ∧ ds ≠ [] then
      (ofDigits ((ds ++ List.replicate 9 '0').take 9), rest.dropWhile isDigit)
    else (0, cs)
  | [] => (0, [])

/-- The distance from universal time, which ends a text. It may count a whole day and a whole hour
more. -/
def offset? : List Char → Option Int
  | ['Z'] => some 0
  | sign :: cs => do
    let (hours, cs) ← fixed? 2 cs
    let (minutes, cs) ← fixed? 2 (← mark? ':' cs)
    if cs ≠ [] ∨ 24 < hours ∨ 60 < minutes then none
    else if sign = '+' then some ((hours * 60 + minutes : Nat) : Int)
    else if sign = '-' then some (-((hours * 60 + minutes : Nat) : Int))
    else none
  | [] => none

/-- The timestamp of a text. -/
def read? (text : String) : Option Timestamp := do
  let (year, cs) ← fixed? 4 text.toList
  let (month, cs) ← fixed? 2 (← mark? '-' cs)
  let (day, cs) ← fixed? 2 (← mark? '-' cs)
  let (hour, cs) ← hour? (← mark? 'T' cs)
  let (minute, cs) ← fixed? 2 (← mark? ':' cs)
  let (second, cs) ← fixed? 2 (← mark? ':' cs)
  let (nanosecond, cs) := takeFraction cs
  let offset ← offset? cs
  if valid : _ then
    some { year, month, day, hour, minute, second, nanosecond, offset, valid }
  else none

/-! ## Clocks -/

/-- The date a number of days after 1 March of the year 0, from which on leap days end a year. -/
def dateOfDays (days : Nat) : Nat × Nat × Nat :=
  let era := days / 146097
  let dayOfEra := days % 146097
  let yearOfEra := (dayOfEra - dayOfEra / 1460 + dayOfEra / 36524 - dayOfEra / 146096) / 365
  let dayOfYear := dayOfEra - (365 * yearOfEra + yearOfEra / 4 - yearOfEra / 100)
  let monthFromMarch := (5 * dayOfYear + 2) / 153
  let day := dayOfYear - (153 * monthFromMarch + 2) / 5 + 1
  let month := if monthFromMarch < 10 then monthFromMarch + 3 else monthFromMarch - 9
  (era * 400 + yearOfEra + (if month ≤ 2 then 1 else 0), month, day)

/-- The days from 1 March of the year 0 to 1 January 1970. -/
def unixEpoch : Nat := 719468

/-- The timestamp in universal time of a clock that counts seconds from the beginning of 1970; after
the year 9999 there is none. -/
def ofUnix (seconds nanosecond : Nat) : Timestamp :=
  let (year, month, day) := dateOfDays (unixEpoch + seconds / 86400)
  let hour := seconds % 86400 / 3600
  let minute := seconds % 3600 / 60
  let second := seconds % 60
  if valid : _ then
    { year, month, day, hour, minute, second, nanosecond, offset := 0, valid }
  else zero

end Timestamp
end Reckoner
