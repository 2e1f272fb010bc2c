import Reckoner.Number.Binary

/-!
# The shortest decimal that reads back

Among the decimals that round to a given binary number, the one with the fewest digits, and of
those the nearest. A binary number `significand * 2 ^ exponent` is reached from every real in an
interval around it, whose ends belong to it when the significand is even; the search goes through
the decimal grids from coarse to fine and looks at the two neighbours of the number on each.

* `Interval` — the number with the ends of its interval, over one common denominator;
* `Scientific` — a coefficient times a power of ten;
* `shortest` — the decimal chosen.
-/

namespace Reckoner.Shortest

/-- A positive number and the ends of the interval of reals that round to it: `value / scale`,
`low / scale` and `high / scale`. -/
structure Interval where
  value : Nat
  low : Nat
  high : Nat
  scale : Nat
  /-- The ends themselves round to the number. -/
  closed : Bool

/-- A decimal: `coefficient * 10 ^ exponent`. -/
structure Scientific where
  coefficient : Nat
  exponent : Int

/-- The interval of a number other than zero. Below a power of two the spacing halves, so there the
lower end is nearer. -/
def Interval.ofBinary (significand : Nat) (exponent : Int) : Interval :=
  let below := if significand = Binary.hiddenBit ∧ -1074 < exponent then 1 else 2
  let up := Nat.pow 2 (exponent - 2).toNat
  { value := 4 * significand * up
    low := (4 * significand - below) * up
    high := (4 * significand + 2) * up
    scale := Nat.pow 2 (2 - exponent).toNat
    closed := significand % 2 == 0 }

/-- The number is at least `10 ^ power`. -/
def Interval.reaches (i : Interval) (power : Int) : Bool :=
  i.scale * Nat.pow 10 power.toNat ≤ i.value * Nat.pow 10 (-power).toNat

/-- The power of ten of the leading digit: an estimate from the power of two, then corrected. -/
def Interval.magnitude (i : Interval) : Int :=
  let estimate := ((i.value.log2 : Int) - i.scale.log2) * 30103 / 100000 - 1
  if i.reaches (estimate + 1) then
    if i.reaches (estimate + 2) then
      if i.reaches (estimate + 3) then estimate + 3 else estimate + 2
    else estimate + 1
  else estimate

/-- The neighbour of the number on the grid of multiples of `10 ^ power` that rounds to it, the
nearer of two, and of two equally near the even one. -/
def Interval.onGrid? (i : Interval) (power : Int) : Option Nat :=
  let unit := i.scale * Nat.pow 10 power.toNat
  let stretch := Nat.pow 10 (-power).toNat
  let value := i.value * stretch
  let inside (n : Nat) : Bool :=
    if i.closed then i.low * stretch ≤ n * unit && n * unit ≤ i.high * stretch
    else i.low * stretch < n * unit && n * unit < i.high * stretch
  let below := value / unit
  let above := below + 1
  match inside below, inside above with
  | true, true =>
    let rest := value % unit
    if 2 * rest < unit || (2 * rest == unit && below % 2 == 0) then some below else some above
  | true, false => some below
  | false, true => some above
  | false, false => none

/-- Tries grids of one more digit, `left` times at most. -/
def Interval.search (i : Interval) (power : Int) : (left : Nat) → Scientific
  | 0 => ⟨i.value / i.scale, 0⟩
  | left + 1 =>
    match i.onGrid? power with
    | some n => ⟨n, power⟩
    | none => i.search (power - 1) left

/-- The shortest decimal that rounds to `significand * 2 ^ exponent`, for a significand other than
zero. Seventeen digits always suffice. -/
def shortest (significand : Nat) (exponent : Int) : Scientific :=
  let i := Interval.ofBinary significand exponent
  i.search i.magnitude 18

end Reckoner.Shortest
