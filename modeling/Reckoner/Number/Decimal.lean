/-!
# Decimal digits of whole numbers

* `digits` — the decimal digits of a natural number, without leading zeros;
* `ofDigits` — the number that a run of digits stands for;
* `intText` — an integer in decimal, with a minus sign when it is negative.
-/

namespace Reckoner.Decimal

/-- The character of a digit. -/
def digitChar (d : Nat) : Char :=
  Char.ofNat (48 + d)

/-- The value of a digit character. -/
def digitValue (c : Char) : Nat :=
  c.toNat - 48

/-- The decimal digits of a number, most significant first. -/
def digits (n : Nat) : List Char :=
  if n < 10 then [digitChar n] else digits (n / 10) ++ [digitChar (n % 10)]

/-- The number written by digit characters. -/
def ofDigits (cs : List Char) : Nat :=
  cs.foldl (fun n c => n * 10 + digitValue c) 0

/-- A natural number in decimal. -/
def natText (n : Nat) : String :=
  String.ofList (digits n)

/-- An integer in decimal. -/
def intText (i : Int) : String :=
  if i < 0 then "-" ++ natText i.natAbs else natText i.natAbs

end Reckoner.Decimal
