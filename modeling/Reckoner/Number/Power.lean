import Reckoner.Number.Binary

/-!
# Powers of binary floating point numbers

A whole exponent is applied by repeated squaring on a fraction and a power of two kept apart, so
that nothing overflows before the end. Zeros, infinities and exponents beyond all bounds are settled
first.

A fractional exponent takes the power function of the platform. The calculator itself multiplies the
power of the whole part by an exponential of a logarithm, each of which is rounded on its way, and
how is left to the processor; so the last digit of such a power may differ between the two.
-/

namespace Reckoner.Power

open Binary

/-- An odd whole number; numbers of magnitude `2 ^ 53` and above count as even. -/
def isOddWhole (y : Float) : Bool :=
  magnitude y < 9007199254740992.0 && isWhole y && (truncate y).natAbs % 2 == 1

/-- Multiplies `acc` by the power `bits` of `base`, both held as a fraction and a power of two. A
base whose power of two has run off the scale ends the loop. -/
def square (acc : Float × Int) (base : Float × Int) (bits : Nat) : Float × Int :=
  if bits = 0 then acc
  else if base.2 < -4096 || 4096 < base.2 then (acc.1, acc.2 + base.2)
  else
    let acc := if bits % 2 = 1 then (acc.1 * base.1, acc.2 + base.2) else acc
    let fraction := base.1 * base.1
    let power := base.2 * 2
    let base := if fraction < 0.5 then (fraction + fraction, power - 1) else (fraction, power)
    square acc base (bits / 2)
termination_by bits

/-- A power whose exponent is beyond all bounds: zero or infinity, by which side of one the base
lies on. -/
def limitPower (x : Float) (growing : Bool) : Float :=
  if x == -1.0 then 1.0
  else if (decide (magnitude x < 1.0)) == growing then 0.0
  else infinity

/-- A power of a base and an exponent that are both finite, the base not zero. Only for a fractional
exponent is it left to the platform. -/
def finitePower (x y : Float) : Float :=
  match ofFloat y with
  | .finite negative significand exponent =>
    let whole := wholePart significand exponent
    if !isWhole y then
      if x < 0.0 then nanValue else Float.pow x y
    else if signBit ≤ whole then limitPower x (!negative)
    else
      let (value, power) := square (1.0, 0) (split x) whole
      if negative then join (1.0 / value) (-power) else join value power
  | _ => nanValue

/-- A power of zero with an exponent other than zero: an odd exponent keeps the sign of the zero. -/
def zeroPower (x y : Float) : Float :=
  let keepsSign := isNegative x && isOddWhole y
  if y < 0.0 then withSign keepsSign infinity else withSign keepsSign 0.0

/-- `x` to the power `y`. -/
def power (x y : Float) : Float :=
  if y == 0.0 || x == 1.0 then 1.0
  else if y == 1.0 then x
  else if x.isNaN || y.isNaN then nanValue
  else if x == 0.0 then zeroPower x y
  else if y.isInf then limitPower x (0.0 < y)
  else if x.isInf then
    if x < 0.0 then zeroPower (-0.0) (-y)
    else if y < 0.0 then 0.0 else infinity
  else if y == 0.5 then Float.sqrt x
  else if y == -0.5 then 1.0 / Float.sqrt x
  else finitePower x y

end Reckoner.Power
