import Reckoner.Eval

/-!
# Branches of evaluation

Evaluation has branches for trees that no source writes: an operator without a meaning, a list in
place of a number. And it divides only after a look at the divisor. To say that a branch is not
taken, or that no number is divided by zero, these branches and the two divisions are made
parameters here. What does not depend on a parameter has no use for it.

* `Branches` — the branches and divisions;
* `Branches.plain` — those of evaluation itself;
* `Branches.Divides` — divisions that are right unless the divisor is zero;
* `Operator.applyBy`, `Operator.applyUnaryBy` — operators with given branches.
-/

namespace Reckoner

/-- What evaluation divides with, and what it does in some branches. -/
structure Branches where
  div : Number → Number → Number
  mod : Number → Number → Number
  /-- The value of a binary operator without a meaning. -/
  binary : Operator → Number → Number → Value
  /-- The value of a unary operator without a meaning. -/
  unary : Operator → Quantity → Value
  /-- What is done with a list where the expression should have been a number. -/
  list : {α : Type} → Role → Expr → Eval α

/-- The branches of evaluation itself. -/
def Branches.plain : Branches where
  div := Number.div
  mod := Number.mod
  binary _ _ _ := .null
  unary _ _ := .null
  list role e := Eval.fail (.notNumber role) e.pos

/-- The divisions are right wherever the divisor is not zero. -/
structure Branches.Divides (branches : Branches) : Prop where
  div : ∀ a b : Number, b.isZero = false → branches.div a b = a.div b
  mod : ∀ a b : Number, b.isZero = false → branches.mod a b = a.mod b

/-! ## Operators -/

/-- A binary operator applied to numbers. -/
def Operator.applyBy (branches : Branches) (op : Operator) (a b : Number) : Except Cause Value :=
  match op.kind with
  | .plus => .ok (.ofNumber (a.add b))
  | .minus => .ok (.ofNumber (a.sub b))
  | .mul => .ok (.ofNumber (a.mul b))
  | .div => if b.isZero then .error .divisionByZero else .ok (.ofNumber (branches.div a b))
  | .mod => if b.isZero then .error .divisionByZero else .ok (.ofNumber (branches.mod a b))
  | .pow => .ok (.ofNumber (a.pow b))
  | .equal => .ok (.ofBool (a.compare b == some .eq))
  | .notEqual => .ok (.ofBool (a.compare b != some .eq))
  | .greater => .ok (.ofBool (a.compare b == some .gt))
  | .greaterEqual => .ok (.ofBool (a.compare b == some .gt || a.compare b == some .eq))
  | .less => .ok (.ofBool (a.compare b == some .lt))
  | .lessEqual => .ok (.ofBool (a.compare b == some .lt || a.compare b == some .eq))
  | .keyword =>
    if op.literal = "and" then .ok (.ofBool (a.isTrue && b.isTrue))
    else if op.literal = "or" then .ok (.ofBool (a.isTrue || b.isTrue))
    else .ok (branches.binary op a b)
  | _ => .ok (branches.binary op a b)

/-- A unary operator applied to a number. -/
def Operator.applyUnaryBy (branches : Branches) (op : Operator) (q : Quantity) : Value :=
  match op.kind with
  | .minus => .ofNumber (q.number.mul (.int (-1)))
  | .plus => .number q
  | .keyword =>
    if op.literal = "not" then
      if q.isTrue then .number q else .ofNumber (.int 1)
    else branches.unary op q
  | _ => branches.unary op q

end Reckoner
