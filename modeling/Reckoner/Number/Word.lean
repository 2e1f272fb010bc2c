/-!
# Arithmetic of 64-bit integers that knows when it overflows

Each operation computes on machine words and answers `none` exactly when the true result does not
fit in a word.

* `add?`, `sub?`, `mul?` — sum, difference, product;
* `pow?` — power by repeated squaring;
* `floorMod` — the remainder that takes the sign of the divisor.
-/

namespace Reckoner.Word

/-- The sum, unless it leaves the range of a word: a sum that fits lies above its first term exactly
when the second is positive. -/
def add? (a b : Int64) : Option Int64 :=
  let sum := a + b
  if decide (a < sum) == decide (0 < b) then some sum else none

/-- The difference, unless it leaves the range of a word. -/
def sub? (a b : Int64) : Option Int64 :=
  let difference := a - b
  if decide (difference < a) == decide (0 < b) then some difference else none

/-- The product, unless it leaves the range of a word: dividing it by one factor must give back the
other. The least word times minus one is refused apart, since there the division overflows too. -/
def mul? (a b : Int64) : Option Int64 :=
  if a = 0 ∨ b = 0 then some 0
  else
    let product := a * b
    if product / b ≠ a ∨ (a = -1 ∧ b = Int64.minValue) ∨ (b = -1 ∧ a = Int64.minValue) then none
    else some product

/-- `result * base ^ exponent` by repeated squaring, unless some product leaves the range. The base
is not squared again after the last bit of the exponent. -/
def powFrom? (result base : Int64) (exponent : Nat) : Option Int64 :=
  if exponent = 0 then some result
  else do
    let result ← if exponent % 2 = 1 then mul? result base else some result
    if exponent / 2 = 0 then some result
    else powFrom? result (← mul? base base) (exponent / 2)
termination_by exponent

/-- The power, unless it leaves the range of a word. -/
def pow? (base : Int64) (exponent : Nat) : Option Int64 :=
  powFrom? 1 base exponent

/-- The remainder of a division by a divisor other than zero, with the sign of the divisor. -/
def floorMod (a b : Int64) : Int64 :=
  let r := a % b
  if r ≠ 0 ∧ decide (r < 0) ≠ decide (b < 0) then r + b else r

/-- The word with this value, when there is one. -/
def ofInt? (i : Int) : Option Int64 :=
  if Int64.minValue.toInt ≤ i ∧ i ≤ Int64.maxValue.toInt then some (Int64.ofInt i) else none

end Reckoner.Word
