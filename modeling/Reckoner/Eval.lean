import Reckoner.Environment
import Reckoner.Expr.Basic
import Reckoner.Fault

/-!
# Evaluation

An expression is evaluated by recursion on its tree; only a loop needs more than that, and takes a
number of rounds at most. A loop that has used them up leaves the evaluation unfinished, which is
neither a value nor a fault.

A run may be called off from outside: somebody cancels it, or its time is over. Loops are where it
finds out, each at the beginning of each of its rounds, and a run that was called off stays so. So
all that a run can see of the world is at which of its looks it is called off.

* `Budget` — what bounds loops;
* `Interrupt`, `Expiry` — why and when a run is called off;
* `Halt` — why an evaluation stops without a value;
* `State`, `Eval` — computations over an environment, which may be called off;
* `Operator.apply`, `Operator.applyUnary` — what operators do to numbers;
* `Expr.eval` — the value of an expression.
-/

namespace Reckoner

/-- What bounds the loops of an evaluation. -/
structure Budget where
  /-- The rounds after which a loop is left unfinished. -/
  fuel : Nat
  /-- The rounds after which a loop is a fault; zero for no limit. -/
  maxRounds : Nat := 0

/-! ## Runs that are called off -/

/-- Why a run is called off. -/
inductive Interrupt where
  | timedOut
  | canceled

/-- The cause of the fault that a run ends with when it is called off. -/
def Interrupt.cause : Interrupt → Cause
  | timedOut => .timedOut
  | canceled => .canceled

/-- When a run is called off: never, or after this many looks that find nothing. The looks are those
of all loops together. -/
inductive Expiry where
  | never
  | after (looks : Nat) (why : Interrupt)

/-- One look: the run is called off, or goes on with one look less. -/
def Expiry.look : Expiry → Except Interrupt Expiry
  | never => .ok never
  | after 0 why => .error why
  | after (looks + 1) why => .ok (after looks why)

/-- A run that would also be out of time after some looks is called off at the earlier of both. -/
def Expiry.orTimeout (looks : Nat) : Expiry → Expiry
  | never => .after looks .timedOut
  | after earlier why => if earlier ≤ looks then .after earlier why else .after looks .timedOut

/-! ## Computations -/

/-- Why an evaluation stops without a value. -/
inductive Halt where
  | fault (fault : Fault)
  /-- The loop at this place has used up its rounds. -/
  | unfinished (pos : Position)

/-- What an evaluation goes through: the bindings, and how far off its end from outside is. -/
@[ext] structure State where
  env : Environment
  expiry : Expiry := .never

/-- A computation over a state. What it has done to the environment stays when it stops. -/
def Eval (α : Type) : Type :=
  State → Except Halt α × State

namespace Eval

/-- Answers, and changes nothing. -/
@[inline] def pure {α : Type} (a : α) : Eval α :=
  fun state => (.ok a, state)

/-- One computation and then another on its answer. -/
@[inline] def bind {α β : Type} (x : Eval α) (f : α → Eval β) : Eval β :=
  fun state =>
    match x state with
    | (.ok a, state) => f a state
    | (.error halt, state) => (.error halt, state)

instance : Monad Eval where
  pure := Eval.pure
  bind := Eval.bind

/-- Stops with a fault. -/
def fail {α : Type} (cause : Cause) (pos : Position) : Eval α :=
  fun state => (.error (.fault ⟨cause, pos⟩), state)

/-- The quantity bound to a name. -/
def get? (name : String) : Eval (Option Quantity) :=
  fun state => (.ok (state.env.get? name), state)

/-- Binds a name in the innermost scope. -/
def set (name : String) (q : Quantity) : Eval Unit :=
  fun state => (.ok (), { state with env := state.env.set name q })

/-- Stops if the run was called off; this is reported at the loop that finds out. -/
def look (pos : Position) : Eval Unit :=
  fun state =>
    match state.expiry.look with
    | .ok expiry => (.ok (), { state with expiry })
    | .error why => (.error (.fault ⟨why.cause, pos⟩), state)

/-- The value of an expression must be a number; that it is not is reported where the expression
stands. -/
def number (role : Role) (e : Expr) : Value → Eval Quantity
  | .number q => pure q
  | .null => fail (.noValue role) e.pos
  | .list _ => fail (.notNumber role) e.pos

/-- The rounds of a loop: `done` of them are over, of which the last had the value `last`, and
`fuel` may still be begun. A round begins with a look whether the run was called off. The limit
counts only bodies, so it is looked at between the condition and the body. -/
def rounds (budget : Budget) (pos : Position) (condition : Eval Quantity) (body : Eval Value) :
    (fuel done : Nat) → (last : Value) → Eval Value
  | 0, _, _, state => (.error (.unfinished pos), state)
  | fuel + 1, done, last, state =>
    match look pos state with
    | (.error halt, state) => (.error halt, state)
    | (.ok (), state) =>
      match condition state with
      | (.error halt, state) => (.error halt, state)
      | (.ok q, state) =>
        if q.isTrue then
          if 0 < budget.maxRounds ∧ budget.maxRounds ≤ done then
            (.error (.fault ⟨.tooManyRounds budget.maxRounds, pos⟩), state)
          else
            match body state with
            | (.error halt, state) => (.error halt, state)
            | (.ok value, state) => rounds budget pos condition body fuel (done + 1) value state
        else (.ok last, state)

end Eval

/-! ## Operators -/

namespace Operator

/-- A binary operator applied to numbers. An operator without a meaning gives no value. -/
def apply (op : Operator) (a b : Number) : Except Cause Value :=
  match op.kind with
  | .plus => .ok (.ofNumber (a.add b))
  | .minus => .ok (.ofNumber (a.sub b))
  | .mul => .ok (.ofNumber (a.mul b))
  | .div => if b.isZero then .error .divisionByZero else .ok (.ofNumber (a.div b))
  | .mod => if b.isZero then .error .divisionByZero else .ok (.ofNumber (a.mod b))
  | .pow => .ok (.ofNumber (a.pow b))
  | .equal => .ok (.ofBool (a.compare b == some .eq))
  | .notEqual => .ok (.ofBool (a.compare b != some .eq))
  | .greater => .ok (.ofBool (a.compare b == some .gt))
  | .greaterEqual => .ok (.ofBool (a.compare b == some .gt || a.compare b == some .eq))
  | .less => .ok (.ofBool (a.compare b == some .lt))
  | .lessEqual => .ok (.ofBool (a.compare b == some .lt || a.compare b == some .eq))
  | .keyword =>
    if op.literal = "and" then .ok (.ofBool (a.isTrue && b.isTrue))
    else if op.literal = "or" then .ok (.ofBool (a.isTrue || b.isTrue))
    else .ok .null
  | _ => .ok .null

/-- A unary operator applied to a number: a plus changes nothing, a minus multiplies by minus one,
and `not` changes zero to one and leaves every other number alone. -/
def applyUnary (op : Operator) (q : Quantity) : Value :=
  match op.kind with
  | .minus => .ofNumber (q.number.mul (.int (-1)))
  | .plus => .number q
  | .keyword =>
    if op.literal = "not" then
      if q.isTrue then .number q else .ofNumber (.int 1)
    else .null
  | _ => .null

end Operator

/-! ## Expressions -/

/-- The place that a fault of an operator is reported at: where its right operand was written as a
number, or else where the expression of it stands. -/
def operandPos (q : Quantity) (e : Expr) : Position :=
  if q.origin.isKnown then q.origin else e.pos

mutual

/-- The value of an expression. -/
def Expr.eval (budget : Budget) : Expr → Eval Value
  | .num value pos => pure (.number ⟨value, pos⟩)
  | .var name pos => do
    match ← Eval.get? name with
    | some q => pure (.number q)
    | none => Eval.fail (.undefined name) pos
  | .assign name pos value => do
    match ← value.eval budget with
    | .number q => do
      Eval.set name q
      pure (.number q)
    | _ => Eval.fail (.undefined name) pos
  | .binary op left right => do
    let a ← Eval.number .left left (← left.eval budget)
    match ← right.eval budget with
    | .null => pure .null
    | .number b =>
      match op.apply a.number b.number with
      | .ok v => pure v
      | .error cause => Eval.fail cause (operandPos b right)
    | .list _ => Eval.fail (.notNumber .right) right.pos
  | .unary op operand => do
    let q ← Eval.number .operand operand (← operand.eval budget)
    pure (op.applyUnary q)
  | .sequence statements => do
    let results ← Expr.evalAll budget statements
    pure (.list results)
  | .choose _ arms => arms.evalTrue budget
  | .select _ subject arms => do
    let v ← subject.eval budget
    arms.evalEqual budget v
  | .loop pos condition body =>
    Eval.rounds budget pos
      (do Eval.number .whileCondition condition (← condition.eval budget))
      (Expr.evalLast budget body .null) budget.fuel 0 .null

/-- The values of statements one after another. -/
def Expr.evalAll (budget : Budget) : List Expr → Eval (List Value)
  | [] => pure []
  | e :: rest => do
    let v ← e.eval budget
    let vs ← Expr.evalAll budget rest
    pure (v :: vs)

/-- The value of the last of some statements, `last` when there is none. -/
def Expr.evalLast (budget : Budget) : List Expr → (last : Value) → Eval Value
  | [], last => pure last
  | e :: rest, _ => do
    let v ← e.eval budget
    Expr.evalLast budget rest v

/-- The body of the first arm whose guard is true. -/
def Arms.evalTrue (budget : Budget) : Arms → Eval Value
  | .none => pure .null
  | .otherwise body => body.eval budget
  | .arm guard body rest => do
    let q ← Eval.number .ifCondition guard (← guard.eval budget)
    if q.isTrue then body.eval budget else rest.evalTrue budget

/-- The body of the first arm whose guard is the same number as the subject. -/
def Arms.evalEqual (budget : Budget) : Arms → (subject : Value) → Eval Value
  | .none, _ => pure .null
  | .otherwise body, _ => body.eval budget
  | .arm guard body rest, subject => do
    let v ← guard.eval budget
    if v.sameNumber subject then body.eval budget else rest.evalEqual budget subject

end

end Reckoner
