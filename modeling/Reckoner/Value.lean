import Reckoner.Number.Basic
import Reckoner.Position

/-!
# Values

* `Quantity` — a number together with the place of the literal it came from, if it came from one;
* `Value` — the result of an expression: nothing, a quantity, or the results of a sequence.
-/

namespace Reckoner

/-- A number and where it was written. Results of operations were written nowhere. -/
structure Quantity where
  number : Number
  origin : Position := .nowhere

/-- The number is different from zero. -/
def Quantity.isTrue (q : Quantity) : Bool :=
  q.number.isTrue

/-- The result of an expression. -/
inductive Value where
  /-- No operation was performed. -/
  | null
  | number (q : Quantity)
  | list (items : List Value)

namespace Value

mutual

/-- A value as text. -/
def text : Value → String
  | .null => "null"
  | .number q => q.number.text
  | .list items => "[" ++ ", ".intercalate (texts items) ++ "]"

/-- The texts of values. -/
def texts : List Value → List String
  | [] => []
  | v :: rest => v.text :: texts rest

end

/-- A number that came from no literal. -/
def ofNumber (n : Number) : Value :=
  .number ⟨n, .nowhere⟩

/-- Truth as a value. -/
def ofBool (b : Bool) : Value :=
  ofNumber (Number.ofBool b)

/-- Both are numbers, and equal ones. -/
def sameNumber : Value → Value → Bool
  | .number a, .number b => a.number.equal b.number
  | _, _ => false

end Value
end Reckoner
