import Reckoner.Number.Binary
import Reckoner.Number.Decimal
import Reckoner.Text.Letter
import Reckoner.Text.Quoted

/-!
# Durations

A duration is written as a sign and a run of amounts with units, such as `1h30m` or `-2.5s`; zero
may stand without a unit. It is held in nanoseconds, of which there are fewer than `2 ^ 63`.

* `Duration.Error` — why a text is no duration;
* `Duration.read` — the nanoseconds of a text.
-/

namespace Reckoner.Duration

open Text (isDigit quotedBytes)
open Decimal (ofDigits)

/-- Why a text is no duration. -/
inductive Error where
  | invalid (text : String)
  | missingUnit (text : String)
  | unknownUnit (unit text : String)

/-- The reason in words. -/
def Error.message : Error → String
  | invalid text => "time: invalid duration " ++ quotedBytes text
  | missingUnit text => "time: missing unit in duration " ++ quotedBytes text
  | unknownUnit unit text =>
    "time: unknown unit " ++ quotedBytes unit ++ " in duration " ++ quotedBytes text

/-- The nanoseconds in a unit. -/
def unit? (name : String) : Option Nat :=
  [("ns", 1), ("us", 1000), ("µs", 1000), ("μs", 1000), ("ms", 1000000), ("s", 1000000000),
    ("m", 60000000000), ("h", 3600000000000)].lookup name

/-- The number of nanoseconds, `2 ^ 63`, that no duration reaches but a negative one. -/
def limit : Nat := 0x8000000000000000

/-- The digits of a fraction as a number over a power of ten, cut off where the number would pass
`2 ^ 63`. -/
def fraction : List Char → (number : Nat) → (scale : Nat) → Nat × Nat
  | [], number, scale => (number, scale)
  | d :: rest, number, scale =>
    let next := number * 10 + Decimal.digitValue d
    if (limit - 1) / 10 < number || limit < next then (number, scale)
    else fraction rest next (scale * 10)

/-- A character of a unit's name. -/
def isUnitChar (c : Char) : Bool :=
  c != '.' && !isDigit c

/-- The parts of an amount at the head of a text: its whole digits, the digits after a point if
there is one, its unit, and what follows. -/
structure Amount where
  whole : List Char
  decimals : List Char
  unit : List Char
  rest : List Char

/-- The digits after a point, if there is one, and what follows them. -/
def takeDecimals : List Char → List Char × List Char
  | '.' :: rest => (rest.takeWhile isDigit, rest.dropWhile isDigit)
  | cs => ([], cs)

/-- The amount at the head of a text. -/
def Amount.take (cs : List Char) : Amount :=
  let fractional := takeDecimals (cs.dropWhile isDigit)
  { whole := cs.takeWhile isDigit
    decimals := fractional.1
    unit := fractional.2.takeWhile isUnitChar
    rest := fractional.2.dropWhile isUnitChar }

theorem length_dropWhile_le (p : Char → Bool) (cs : List Char) :
    (cs.dropWhile p).length ≤ cs.length :=
  (List.dropWhile_sublist p).length_le

theorem length_takeDecimals_le (cs : List Char) : (takeDecimals cs).2.length ≤ cs.length := by
  unfold takeDecimals
  split
  · next rest => exact Nat.le_succ_of_le (length_dropWhile_le isDigit rest)
  · exact Nat.le_refl _

/-- An amount with a unit leaves less than there was. -/
theorem Amount.rest_lt (cs : List Char) (h : (Amount.take cs).unit ≠ []) :
    (Amount.take cs).rest.length < cs.length := by
  have digits := length_dropWhile_le isDigit cs
  have fractional := length_takeDecimals_le (cs.dropWhile isDigit)
  have whole := congrArg List.length (List.takeWhile_append_dropWhile (p := isUnitChar)
    (l := (takeDecimals (cs.dropWhile isDigit)).2))
  have some := List.length_pos_iff.mpr h
  simp only [Amount.take] at some ⊢
  rw [List.length_append] at whole
  omega

/-- The nanoseconds of an amount: the part after the point is cut off to whole nanoseconds. -/
def Amount.value? (a : Amount) (unit : Nat) : Option Nat :=
  let whole := ofDigits a.whole
  if limit < whole || limit / unit < whole then none
  else
    let (number, scale) := fraction a.decimals 0 1
    let part := Float.ofNat number * (Float.ofNat unit / Float.ofNat scale)
    let total := whole * unit + (Binary.truncate part).toNat
    if limit < total then none else some total

/-- The sum of the amounts of a text, over `sum`. -/
def amounts (text : String) (sum : Nat) (cs : List Char) : Except Error Nat :=
  if cs.isEmpty then .ok sum
  else
    let a := Amount.take cs
    if a.whole.isEmpty && a.decimals.isEmpty then .error (.invalid text)
    else if limit < ofDigits a.whole then .error (.invalid text)
    else if h : a.unit = [] then .error (.missingUnit text)
    else
      match unit? (String.ofList a.unit) with
      | none => .error (.unknownUnit (String.ofList a.unit) text)
      | some unit =>
        match a.value? unit with
        | none => .error (.invalid text)
        | some value =>
          if limit < sum + value then .error (.invalid text)
          else
            have := Amount.rest_lt cs h
            amounts text (sum + value) a.rest
termination_by cs.length

/-- The nanoseconds of a duration. -/
def read (text : String) : Except Error Int :=
  let (negative, cs) :=
    match text.toList with
    | '-' :: rest => (true, rest)
    | '+' :: rest => (false, rest)
    | cs => (false, cs)
  if cs = ['0'] then .ok 0
  else if cs.isEmpty then .error (.invalid text)
  else
    match amounts text 0 cs with
    | .error e => .error e
    | .ok sum =>
      if negative then .ok (-(sum : Int))
      else if limit ≤ sum then .error (.invalid text)
      else .ok sum

end Reckoner.Duration
