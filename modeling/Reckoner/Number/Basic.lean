import Reckoner.Number.Layout
import Reckoner.Number.Power
import Reckoner.Number.Reading
import Reckoner.Number.Word

/-!
# Numbers

The one kind of datum of the language: a 64-bit integer or a binary floating point number.

Operations on two integers stay with integers as long as the result fits in a word, and otherwise
compute with the nearest binary numbers. Truth is being different from zero.

* `add`, `sub`, `mul`, `div`, `mod`, `pow`, `neg` — arithmetic;
* `compare` — numerical order, which not-a-number has no part in;
* `text`, `ofText?` — the printed form, and numbers read from text.
-/

namespace Reckoner

open Decimal (intText)

/-- A number of the language. -/
inductive Number where
  | int (value : Int64)
  | float (value : Float)

namespace Number

/-- Truth as a number: one or zero. -/
def ofBool (b : Bool) : Number :=
  if b then .int 1 else .int 0

/-- The number is held as a binary number. -/
def isFloat : Number → Bool
  | .int _ => false
  | .float _ => true

/-- The nearest binary number. -/
def toFloat : Number → Float
  | .int i => Float.ofInt i.toInt
  | .float x => x

/-- The number cut off toward zero. -/
def truncate : Number → Int
  | .int i => i.toInt
  | .float x => Binary.truncate x

/-- Different from zero. -/
def isTrue : Number → Bool
  | .int i => i != 0
  | .float x => x != 0.0

/-- Equal to zero. -/
def isZero (a : Number) : Bool :=
  !a.isTrue

/-! ## Order -/

/-- Numerical order of binary numbers; none when one is not a number. -/
def compareFloat (x y : Float) : Option Ordering :=
  if x < y then some .lt
  else if y < x then some .gt
  else if x == y then some .eq
  else none

/-- Numerical order; none when one side is not a number. -/
def compare : Number → Number → Option Ordering
  | .int i, .int j =>
    if i < j then some .lt else if j < i then some .gt else some .eq
  | a, b => compareFloat a.toFloat b.toFloat

/-- Numerical equality. -/
def equal (a b : Number) : Bool :=
  a.compare b == some .eq

/-! ## Arithmetic -/

/-- An operation on words when both sides are integers and it answers, else one on binary numbers.
-/
def arith (onWords : Int64 → Int64 → Option Int64) (onFloats : Float → Float → Float) :
    Number → Number → Number
  | .int i, .int j =>
    match onWords i j with
    | some k => .int k
    | none => .float (onFloats (toFloat (.int i)) (toFloat (.int j)))
  | a, b => .float (onFloats a.toFloat b.toFloat)

/-- The sum. -/
def add : Number → Number → Number :=
  arith Word.add? (· + ·)

/-- The difference. -/
def sub : Number → Number → Number :=
  arith Word.sub? (· - ·)

/-- The product. -/
def mul : Number → Number → Number :=
  arith Word.mul? (· * ·)

/-- The quotient, always a binary number. -/
def div (a b : Number) : Number :=
  .float (a.toFloat / b.toFloat)

/-- The remainder of binary numbers, with the sign of the divisor. -/
def floorModFloat (x y : Float) : Float :=
  let r := Binary.remainder x y
  if r != 0.0 && decide (r < 0.0) != decide (y < 0.0) then r + y else r

/-- The remainder, with the sign of the divisor. -/
def mod : Number → Number → Number
  | .int i, .int j => .int (Word.floorMod i j)
  | a, b => .float (floorModFloat a.toFloat b.toFloat)

/-- The power; of integers an integer only when the exponent is not negative. -/
def pow : Number → Number → Number :=
  arith (fun i j => if 0 ≤ j then Word.pow? i j.toInt.toNat else none) Power.power

/-- The opposite number. -/
def neg (a : Number) : Number :=
  a.mul (.int (-1))

/-! ## Text -/

/-- The printed form. -/
def text : Number → String
  | .int i => intText i.toInt
  | .float x => floatText x

/-- A number read from text: an integer when it is one that fits, else a binary number. -/
def ofText? (s : String) : Option Number :=
  match readInt s with
  | .ok i => some (.int i)
  | .error _ =>
    match readFloat s with
    | .ok x => some (.float x)
    | .error _ => none

end Number
end Reckoner
