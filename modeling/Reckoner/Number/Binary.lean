/-!
# Binary floating point taken apart

A double-precision number is not a number, an infinity, or a sign, a whole significand and a power
of two.

* `Binary.ofFloat` — takes a number apart;
* `Binary.scaled` — the number nearest to `significand * 2 ^ exponent`;
* `Binary.truncate`, `Binary.remainder`, `Binary.split` — exact operations on the parts.
-/

namespace Reckoner

/-- What a double-precision number is. -/
inductive Binary where
  | nan
  | infinite (negative : Bool)
  /-- The value is `significand * 2 ^ exponent`, or its opposite. -/
  | finite (negative : Bool) (significand : Nat) (exponent : Int)

namespace Binary

/-- Not a number. -/
def nanValue : Float := 0.0 / 0.0

/-- Positive infinity. -/
def infinity : Float := 1.0 / 0.0

/-- The sign in the bits of a number, `2 ^ 63`. -/
def signBit : Nat := 0x8000000000000000

/-- The leading bit of a significand, `2 ^ 52`, which is not among the bits of a number. -/
def hiddenBit : Nat := 0x10000000000000

/-- Takes a number apart. -/
def ofFloat (x : Float) : Binary :=
  let bits : Nat := x.toBits.toNat
  let negative := decide (signBit ≤ bits)
  let field : Nat := bits / hiddenBit % 2048
  let fraction := bits % hiddenBit
  if field = 2047 then
    if fraction = 0 then infinite negative else nan
  else if field = 0 then finite negative fraction (-1074)
  else finite negative (hiddenBit + fraction) ((field : Int) - 1075)

/-- The number with its sign bit set. -/
def isNegative (x : Float) : Bool :=
  match ofFloat x with
  | nan => false
  | infinite negative => negative
  | finite negative _ _ => negative

/-- The number, or its opposite. -/
def withSign (negative : Bool) (x : Float) : Float :=
  if negative then -x else x

/-- The magnitude of a number. -/
def magnitude (x : Float) : Float :=
  withSign (isNegative x) x

/-- The number nearest to `significand * 2 ^ exponent`, ties to the even significand. Powers far
outside the range of the format are settled before they are computed. -/
def scaled (significand : Nat) (exponent : Int) : Float :=
  if significand = 0 then 0.0
  else
    let top := significand.log2 + exponent
    if top > 1100 then infinity
    else if top < -1200 then 0.0
    else if 0 ≤ exponent then Float.ofNat (significand * Nat.pow 2 exponent.toNat)
    else Float.ofScientific (significand * Nat.pow 5 exponent.natAbs) true exponent.natAbs

/-- The whole part of `significand * 2 ^ exponent`. -/
def wholePart (significand : Nat) (exponent : Int) : Nat :=
  if 0 ≤ exponent then significand * Nat.pow 2 exponent.toNat
  else significand / Nat.pow 2 exponent.natAbs

/-- The number cut off toward zero; zero where there is none. -/
def truncate (x : Float) : Int :=
  match ofFloat x with
  | finite negative significand exponent =>
    let whole := wholePart significand exponent
    if negative then -(whole : Int) else whole
  | _ => 0

/-- The number has no fractional part. -/
def isWhole (x : Float) : Bool :=
  match ofFloat x with
  | finite _ significand exponent => 0 ≤ exponent || significand % Nat.pow 2 exponent.natAbs == 0
  | infinite _ => true
  | nan => false

/-- The exact remainder of a division toward zero, with the sign of the dividend. -/
def remainder (x y : Float) : Float :=
  match ofFloat x, ofFloat y with
  | finite negative m e, finite _ n f =>
    if n = 0 then nanValue
    else
      let least := min e f
      let r := (m * Nat.pow 2 (e - least).toNat) % (n * Nat.pow 2 (f - least).toNat)
      withSign negative (scaled r least)
  | finite .., infinite _ => x
  | _, _ => nanValue

/-- A number other than zero as a fraction of magnitude in `[1/2, 1)` and a power of two; any other
number with the power zero. -/
def split (x : Float) : Float × Int :=
  match ofFloat x with
  | finite negative significand exponent =>
    if significand = 0 then (x, 0)
    else
      let width := significand.log2 + 1
      (withSign negative (scaled significand (-(width : Int))), exponent + width)
  | _ => (x, 0)

/-- The number times a power of two, rounded once. -/
def join (x : Float) (power : Int) : Float :=
  match ofFloat x with
  | finite negative significand exponent =>
    withSign negative (scaled significand (exponent + power))
  | _ => x

end Binary
end Reckoner
