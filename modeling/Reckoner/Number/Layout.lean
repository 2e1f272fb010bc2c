import Reckoner.Number.Decimal
import Reckoner.Number.Shortest

/-!
# How a binary number is written

* `Layout` — the decisions of the format: which exponents are written in positional notation, and
  how many digits an exponent has at least;
* `Layout.standard` — the format of results;
* `floatText` — a number in that format.
-/

namespace Reckoner

open Decimal

/-- The decisions of the format. -/
structure Layout where
  /-- The least exponent of the leading digit written positionally. -/
  leastPositional : Int
  /-- The greatest exponent of the leading digit written positionally. -/
  greatestPositional : Int
  /-- An exponent is filled up with zeros to this many digits. -/
  exponentDigits : Nat

/-- Results are positional from one ten-thousandth up to sixteen digits before the point, and an
exponent has two digits at least. -/
def Layout.standard : Layout :=
  { leastPositional := -4, greatestPositional := 15, exponentDigits := 2 }

namespace Layout

/-- The digits without trailing zeros; at least one is kept. -/
def significant (ds : List Char) : List Char :=
  match (ds.reverse.dropWhile (· == '0')).reverse with
  | [] => ['0']
  | kept => kept

/-- Digits with a point after the leading one, when others follow. -/
def pointed : List Char → List Char
  | [] => []
  | [d] => [d]
  | d :: rest => d :: '.' :: rest

/-- The exponent with its sign, filled up with zeros. -/
def exponentText (layout : Layout) (e : Int) : List Char :=
  let ds := digits e.natAbs
  (if e < 0 then '-' else '+') :: List.replicate (layout.exponentDigits - ds.length) '0' ++ ds

/-- Positional notation with at least one digit on each side of the point; the leading digit stands
at the power `e` of ten. -/
def positional (ds : List Char) (e : Int) : List Char :=
  if e < 0 then '0' :: '.' :: List.replicate (e.natAbs - 1) '0' ++ ds
  else
    let whole := ds.take (e.toNat + 1)
    let padded := whole ++ List.replicate (e.toNat + 1 - whole.length) '0'
    let fraction := ds.drop (e.toNat + 1)
    padded ++ '.' :: (if fraction.isEmpty then ['0'] else fraction)

/-- A positive decimal in the format. -/
def decimalText (layout : Layout) (d : Shortest.Scientific) : List Char :=
  let all := digits d.coefficient
  let e := d.exponent + (all.length - 1 : Nat)
  let ds := significant all
  if layout.leastPositional ≤ e ∧ e ≤ layout.greatestPositional then positional ds e
  else pointed ds ++ 'e' :: layout.exponentText e

end Layout

/-- A binary number as it is printed: the shortest decimal that reads back. -/
def floatText (x : Float) : String :=
  match Binary.ofFloat x with
  | .nan => "nan"
  | .infinite negative => if negative then "-inf" else "inf"
  | .finite negative significand exponent =>
    let magnitude :=
      if significand = 0 then ['0', '.', '0']
      else Layout.standard.decimalText (Shortest.shortest significand exponent)
    String.ofList (if negative then '-' :: magnitude else magnitude)

end Reckoner
