/-!
# Sets of characters given by ranges of code points

* `Ranges` — a list of inclusive ranges;
* `Ranges.has` — membership of a character.
-/

namespace Reckoner.Text

/-- Inclusive ranges of code points. -/
abbrev Ranges := List (Nat × Nat)

/-- The character lies in one of the ranges. -/
def Ranges.has (ranges : Ranges) (c : Char) : Bool :=
  ranges.any fun r => r.1 ≤ c.toNat && c.toNat ≤ r.2

end Reckoner.Text
