import Reckoner.Proofs.Branches

/-!
# Evaluation over its operations

An expression asks little of the computations that evaluate it: to look a name up, to bind one, to
fail, to run a loop, and to do something in the branches for trees that no source writes. Over such
operations evaluation is the same in every monad. When two sets of operations keep a relation, all
evaluations over them keep it, so a property of evaluation comes down to a property of four
operations.

* `Operations` — what evaluation asks of a monad;
* `Expr.evalWith` — evaluation over given operations;
* `Operations.plain`, `Expr.evalWith_plain` — the operations of evaluation itself;
* `Expr.evalAllBy` — evaluation with other branches;
* `Expr.accessed`, `Expr.assigned` — the names that an expression reads, and those it may bind;
* `Operations.Related`, `Operations.Related.evalWith` — related operations, related evaluations;
* `Eval.Closed`, `Eval.Closed.eval` — properties of computations that every evaluation has.
-/

namespace Reckoner

/-! ## Operations -/

/-- What evaluation asks of a monad. -/
structure Operations (M : Type → Type) where
  get? : String → M (Option Quantity)
  set : String → Quantity → M Unit
  fail : {α : Type} → Cause → Position → M α
  apply : Operator → Number → Number → Except Cause Value
  applyUnary : Operator → Quantity → Value
  /-- What is done with a list where the expression should have been a number. -/
  list : {α : Type} → Role → Expr → M α
  /-- The loop at a place, with its condition and its body. -/
  loop : Position → M Quantity → M Value → M Value

def Operations.number {M : Type → Type} [Monad M] (ops : Operations M) (role : Role) (e : Expr) :
    Value → M Quantity
  | .number q => pure q
  | .null => ops.fail (.noValue role) e.pos
  | .list _ => ops.list role e

section EvalWith

variable {M : Type → Type} [Monad M]

mutual

/-- The value of an expression over given operations. -/
def Expr.evalWith (ops : Operations M) : Expr → M Value
  | .num value pos => pure (.number ⟨value, pos⟩)
  | .var name pos => do
    match ← ops.get? name with
    | some q => pure (.number q)
    | none => ops.fail (.undefined name) pos
  | .assign name pos value => do
    match ← value.evalWith ops with
    | .number q => do
      ops.set name q
      pure (.number q)
    | _ => ops.fail (.undefined name) pos
  | .binary op left right => do
    let a ← ops.number .left left (← left.evalWith ops)
    match ← right.evalWith ops with
    | .null => pure .null
    | .number b =>
      match ops.apply op a.number b.number with
      | .ok v => pure v
      | .error cause => ops.fail cause (operandPos b right)
    | .list _ => ops.list .right right
  | .unary op operand => do
    let q ← ops.number .operand operand (← operand.evalWith ops)
    pure (ops.applyUnary op q)
  | .sequence statements => do
    let results ← Expr.evalAllWith ops statements
    pure (.list results)
  | .choose _ arms => arms.evalTrueWith ops
  | .select _ subject arms => do
    let v ← subject.evalWith ops
    arms.evalEqualWith ops v
  | .loop pos condition body =>
    ops.loop pos (do ops.number .whileCondition condition (← condition.evalWith ops))
      (Expr.evalLastWith ops body .null)

def Expr.evalAllWith (ops : Operations M) : List Expr → M (List Value)
  | [] => pure []
  | e :: rest => do
    let v ← e.evalWith ops
    let vs ← Expr.evalAllWith ops rest
    pure (v :: vs)

def Expr.evalLastWith (ops : Operations M) : List Expr → (last : Value) → M Value
  | [], last => pure last
  | e :: rest, _ => do
    let v ← e.evalWith ops
    Expr.evalLastWith ops rest v

def Arms.evalTrueWith (ops : Operations M) : Arms → M Value
  | .none => pure .null
  | .otherwise body => body.evalWith ops
  | .arm guard body rest => do
    let q ← ops.number .ifCondition guard (← guard.evalWith ops)
    if q.isTrue then body.evalWith ops else rest.evalTrueWith ops

def Arms.evalEqualWith (ops : Operations M) : Arms → (subject : Value) → M Value
  | .none, _ => pure .null
  | .otherwise body, _ => body.evalWith ops
  | .arm guard body rest, subject => do
    let v ← guard.evalWith ops
    if v.sameNumber subject then body.evalWith ops else rest.evalEqualWith ops subject

end

end EvalWith

/-! ## Evaluation itself -/

/-- The operations of evaluation within a budget, with given branches. -/
def Operations.branching (branches : Branches) (budget : Budget) : Operations Eval where
  get? := Eval.get?
  set := Eval.set
  fail := Eval.fail
  apply := Operator.applyBy branches
  applyUnary := Operator.applyUnaryBy branches
  list := branches.list
  loop pos condition body := Eval.rounds budget pos condition body budget.fuel 0 .null

/-- The operations of evaluation itself within a budget. -/
abbrev Operations.plain (budget : Budget) : Operations Eval := .branching .plain budget

/-- The values of statements one after another, with given branches. -/
def Expr.evalAllBy (branches : Branches) (budget : Budget) (es : List Expr) : Eval (List Value) :=
  Expr.evalAllWith (.branching branches budget) es

theorem Operations.number_plain (budget : Budget) (role : Role) (e : Expr) :
    (Operations.plain budget).number role e = Eval.number role e := by
  funext v
  cases v <;> rfl

mutual

/-- Over its own operations evaluation is what it is. -/
theorem Expr.evalWith_plain (budget : Budget) :
    ∀ e : Expr, e.evalWith (.plain budget) = e.eval budget
  | .num value pos => rfl
  | .var name pos => rfl
  | .assign name pos value => by
      rw [Expr.evalWith, Expr.eval, Expr.evalWith_plain budget value]
      rfl
  | .binary op left right => by
      rw [Expr.evalWith, Expr.eval, Expr.evalWith_plain budget left,
        Expr.evalWith_plain budget right, Operations.number_plain]
      rfl
  | .unary op operand => by
      rw [Expr.evalWith, Expr.eval, Expr.evalWith_plain budget operand, Operations.number_plain]
      rfl
  | .sequence statements => by
      rw [Expr.evalWith, Expr.eval, Expr.evalAllWith_plain budget statements]
  | .choose pos arms => by
      rw [Expr.evalWith, Expr.eval, Arms.evalTrueWith_plain budget arms]
  | .select pos subject arms => by
      rw [Expr.evalWith, Expr.eval, Expr.evalWith_plain budget subject]
      exact congrArg _ (funext fun v => Arms.evalEqualWith_plain budget arms v)
  | .loop pos condition body => by
      rw [Expr.evalWith, Expr.eval, Expr.evalWith_plain budget condition,
        Expr.evalLastWith_plain budget body, Operations.number_plain]
      rfl

theorem Expr.evalAllWith_plain (budget : Budget) :
    ∀ es : List Expr, Expr.evalAllWith (.plain budget) es = Expr.evalAll budget es
  | [] => rfl
  | e :: rest => by
      rw [Expr.evalAllWith, Expr.evalAll, Expr.evalWith_plain budget e,
        Expr.evalAllWith_plain budget rest]

theorem Expr.evalLastWith_plain (budget : Budget) :
    ∀ (es : List Expr) (last : Value),
      Expr.evalLastWith (.plain budget) es last = Expr.evalLast budget es last
  | [], _ => rfl
  | e :: rest, _ => by
      rw [Expr.evalLastWith, Expr.evalLast, Expr.evalWith_plain budget e]
      exact congrArg _ (funext fun v => Expr.evalLastWith_plain budget rest v)

theorem Arms.evalTrueWith_plain (budget : Budget) :
    ∀ arms : Arms, arms.evalTrueWith (.plain budget) = arms.evalTrue budget
  | .none => rfl
  | .otherwise body => by
      rw [Arms.evalTrueWith, Arms.evalTrue, Expr.evalWith_plain budget body]
  | .arm guard body rest => by
      rw [Arms.evalTrueWith, Arms.evalTrue, Expr.evalWith_plain budget guard,
        Expr.evalWith_plain budget body, Arms.evalTrueWith_plain budget rest,
        Operations.number_plain]

theorem Arms.evalEqualWith_plain (budget : Budget) :
    ∀ (arms : Arms) (subject : Value),
      arms.evalEqualWith (.plain budget) subject = arms.evalEqual budget subject
  | .none, _ => rfl
  | .otherwise body, _ => by
      rw [Arms.evalEqualWith, Arms.evalEqual, Expr.evalWith_plain budget body]
  | .arm guard body rest, subject => by
      rw [Arms.evalEqualWith, Arms.evalEqual, Expr.evalWith_plain budget guard,
        Expr.evalWith_plain budget body, Arms.evalEqualWith_plain budget rest]

end

/-! ## Names that are read -/

mutual

/-- The names that an expression looks up. An assignment does not look its name up. -/
def Expr.accessed : Expr → List String
  | .num _ _ => []
  | .var name _ => [name]
  | .assign _ _ value => value.accessed
  | .binary _ left right => left.accessed ++ right.accessed
  | .unary _ operand => operand.accessed
  | .sequence statements => Expr.accessedAll statements
  | .choose _ arms => arms.accessed
  | .select _ subject arms => subject.accessed ++ arms.accessed
  | .loop _ condition body => condition.accessed ++ Expr.accessedAll body

def Expr.accessedAll : List Expr → List String
  | [] => []
  | e :: rest => e.accessed ++ Expr.accessedAll rest

def Arms.accessed : Arms → List String
  | .none => []
  | .otherwise body => body.accessed
  | .arm guard body rest => guard.accessed ++ body.accessed ++ rest.accessed

end

mutual

/-- The names on the left of the assignments in an expression. -/
def Expr.assigned : Expr → List String
  | .num _ _ => []
  | .var _ _ => []
  | .assign name _ value => name :: value.assigned
  | .binary _ left right => left.assigned ++ right.assigned
  | .unary _ operand => operand.assigned
  | .sequence statements => Expr.assignedAll statements
  | .choose _ arms => arms.assigned
  | .select _ subject arms => subject.assigned ++ arms.assigned
  | .loop _ condition body => condition.assigned ++ Expr.assignedAll body

def Expr.assignedAll : List Expr → List String
  | [] => []
  | e :: rest => e.assigned ++ Expr.assignedAll rest

def Arms.assigned : Arms → List String
  | .none => []
  | .otherwise body => body.assigned
  | .arm guard body rest => guard.assigned ++ body.assigned ++ rest.assigned

end

/-! ## Related operations -/

/-- Why an operation may fail. Loops have reasons of their own. -/
inductive Cause.OfOperation : Cause → Prop where
  | undefined (name : String) : OfOperation (.undefined name)
  | noValue (role : Role) : OfOperation (.noValue role)
  | notNumber (role : Role) : OfOperation (.notNumber role)
  | divisionByZero : OfOperation .divisionByZero

theorem Operator.eq_divisionByZero_of_apply {op : Operator} {a b : Number} {cause : Cause}
    (h : op.apply a b = .error cause) : cause = .divisionByZero := by
  unfold Operator.apply at h
  -- Only a quotient and a remainder may fail.
  repeat' split at h
  all_goals cases h
  all_goals rfl

/-- The operators are those of evaluation itself, and a list in place of a number is a fault. -/
structure Operations.IsPlain {M : Type → Type} (ops : Operations M) : Prop where
  apply : ops.apply = Operator.apply
  applyUnary : ops.applyUnary = Operator.applyUnary
  list : ∀ {α : Type} role e, (ops.list role e : M α) = ops.fail (.notNumber role) e.pos

theorem Operations.isPlain_plain (budget : Budget) : (Operations.plain budget).IsPlain :=
  ⟨rfl, rfl, fun _ _ => rfl⟩

/-- The operations keep a relation of computations, as far as the names that are looked up are
`known` and those that are bound are `targets`. -/
structure Operations.Related {M N : Type → Type} [Monad M] [Monad N] (ops : Operations M)
    (ops' : Operations N) (known targets : String → Prop)
    (rel : ∀ {α : Type}, M α → N α → Prop) : Prop where
  plain : ops.IsPlain
  plain' : ops'.IsPlain
  pure : ∀ {α : Type} (a : α), rel (Pure.pure a : M α) (Pure.pure a : N α)
  bind : ∀ {α β : Type} {x : M α} {y : N α} {f : α → M β} {g : α → N β},
    rel x y → (∀ a, rel (f a) (g a)) → rel (x >>= f) (y >>= g)
  get? : ∀ name, known name → rel (ops.get? name) (ops'.get? name)
  set : ∀ name, targets name → ∀ q, rel (ops.set name q) (ops'.set name q)
  fail : ∀ {α : Type} {cause : Cause}, cause.OfOperation → ∀ pos,
    rel (ops.fail cause pos : M α) (ops'.fail cause pos : N α)
  loop : ∀ pos {condition condition' body body'}, rel condition condition' → rel body body' →
    rel (ops.loop pos condition body) (ops'.loop pos condition' body')

namespace Operations.Related

variable {M N : Type → Type} [Monad M] [Monad N] {ops : Operations M} {ops' : Operations N}
  {known targets : String → Prop} {rel : ∀ {α : Type}, M α → N α → Prop}

theorem list (h : Related ops ops' known targets rel) {α : Type} (role : Role) (e : Expr) :
    rel (ops.list role e : M α) (ops'.list role e) := by
  rw [h.plain.list, h.plain'.list]
  exact h.fail (.notNumber role) _

theorem number (h : Related ops ops' known targets rel) (role : Role) (e : Expr) (v : Value) :
    rel (ops.number role e v) (ops'.number role e v) := by
  cases v with
  | null => exact h.fail (.noValue role) _
  | number q => exact h.pure q
  | list items => exact h.list role e

mutual

/-- Evaluations over related operations are related. -/
theorem evalWith (h : Related ops ops' known targets rel) :
    ∀ e : Expr, (∀ name ∈ e.accessed, known name) → (∀ name ∈ e.assigned, targets name) →
      rel (e.evalWith ops) (e.evalWith ops')
  | .num value pos, _, _ => h.pure _
  | .var name pos, hknown, _ => by
      rw [Expr.evalWith, Expr.evalWith]
      refine h.bind (h.get? name (hknown name (by simp [Expr.accessed]))) ?_
      intro q?
      cases q? with
      | none => exact h.fail (.undefined name) _
      | some q => exact h.pure _
  | .assign name pos value, hknown, htargets => by
      have ⟨hname, hbound⟩ := List.forall_mem_cons.1 htargets
      rw [Expr.evalWith, Expr.evalWith]
      refine h.bind (h.evalWith value hknown hbound) ?_
      intro v
      cases v with
      | null => exact h.fail (.undefined name) _
      | number q => exact h.bind (h.set name hname q) fun _ => h.pure _
      | list items => exact h.fail (.undefined name) _
  | .binary op left right, hknown, htargets => by
      have ⟨hleft, hright⟩ := List.forall_mem_append.1 hknown
      have ⟨hleft', hright'⟩ := List.forall_mem_append.1 htargets
      rw [Expr.evalWith, Expr.evalWith]
      refine h.bind (h.evalWith left hleft hleft') fun u => h.bind (h.number .left left u) ?_
      intro a
      refine h.bind (h.evalWith right hright hright') ?_
      intro v
      cases v with
      | null => exact h.pure _
      | number b =>
          dsimp only
          rw [h.plain.apply, h.plain'.apply]
          cases happly : op.apply a.number b.number with
          | ok v => exact h.pure v
          | error cause =>
              rw [Operator.eq_divisionByZero_of_apply happly]
              exact h.fail .divisionByZero _
      | list items => exact h.list .right right
  | .unary op operand, hknown, htargets => by
      rw [Expr.evalWith, Expr.evalWith, h.plain.applyUnary, h.plain'.applyUnary]
      refine h.bind (h.evalWith operand hknown htargets) fun v => ?_
      exact h.bind (h.number .operand operand v) fun q => h.pure _
  | .sequence statements, hknown, htargets => by
      rw [Expr.evalWith, Expr.evalWith]
      exact h.bind (h.evalAllWith statements hknown htargets) fun vs => h.pure _
  | .choose pos arms, hknown, htargets => by
      rw [Expr.evalWith, Expr.evalWith]
      exact h.evalTrueWith arms hknown htargets
  | .select pos subject arms, hknown, htargets => by
      have ⟨hsubject, harms⟩ := List.forall_mem_append.1 hknown
      have ⟨hsubject', harms'⟩ := List.forall_mem_append.1 htargets
      rw [Expr.evalWith, Expr.evalWith]
      exact h.bind (h.evalWith subject hsubject hsubject') fun v =>
        h.evalEqualWith arms harms harms' v
  | .loop pos condition body, hknown, htargets => by
      have ⟨hcondition, hbody⟩ := List.forall_mem_append.1 hknown
      have ⟨hcondition', hbody'⟩ := List.forall_mem_append.1 htargets
      rw [Expr.evalWith, Expr.evalWith]
      refine h.loop pos ?_ (h.evalLastWith body hbody hbody' .null)
      exact h.bind (h.evalWith condition hcondition hcondition') fun v => h.number _ _ v

theorem evalAllWith (h : Related ops ops' known targets rel) :
    ∀ es : List Expr, (∀ name ∈ Expr.accessedAll es, known name) →
      (∀ name ∈ Expr.assignedAll es, targets name) →
      rel (Expr.evalAllWith ops es) (Expr.evalAllWith ops' es)
  | [], _, _ => h.pure _
  | e :: rest, hknown, htargets => by
      have ⟨he, hrest⟩ := List.forall_mem_append.1 hknown
      have ⟨he', hrest'⟩ := List.forall_mem_append.1 htargets
      rw [Expr.evalAllWith, Expr.evalAllWith]
      refine h.bind (h.evalWith e he he') fun v => ?_
      exact h.bind (h.evalAllWith rest hrest hrest') fun vs => h.pure _

theorem evalLastWith (h : Related ops ops' known targets rel) :
    ∀ es : List Expr, (∀ name ∈ Expr.accessedAll es, known name) →
      (∀ name ∈ Expr.assignedAll es, targets name) → ∀ last : Value,
      rel (Expr.evalLastWith ops es last) (Expr.evalLastWith ops' es last)
  | [], _, _, _ => h.pure _
  | e :: rest, hknown, htargets, _ => by
      have ⟨he, hrest⟩ := List.forall_mem_append.1 hknown
      have ⟨he', hrest'⟩ := List.forall_mem_append.1 htargets
      rw [Expr.evalLastWith, Expr.evalLastWith]
      exact h.bind (h.evalWith e he he') fun v => h.evalLastWith rest hrest hrest' v

theorem evalTrueWith (h : Related ops ops' known targets rel) :
    ∀ arms : Arms, (∀ name ∈ arms.accessed, known name) →
      (∀ name ∈ arms.assigned, targets name) →
      rel (arms.evalTrueWith ops) (arms.evalTrueWith ops')
  | .none, _, _ => h.pure _
  | .otherwise body, hknown, htargets => by
      rw [Arms.evalTrueWith, Arms.evalTrueWith]
      exact h.evalWith body hknown htargets
  | .arm guard body rest, hknown, htargets => by
      have ⟨hfirst, hrest⟩ := List.forall_mem_append.1 hknown
      have ⟨hguard, hbody⟩ := List.forall_mem_append.1 hfirst
      have ⟨hfirst', hrest'⟩ := List.forall_mem_append.1 htargets
      have ⟨hguard', hbody'⟩ := List.forall_mem_append.1 hfirst'
      rw [Arms.evalTrueWith, Arms.evalTrueWith]
      refine h.bind (h.evalWith guard hguard hguard') fun v => h.bind (h.number _ _ v) fun q => ?_
      split
      · exact h.evalWith body hbody hbody'
      · exact h.evalTrueWith rest hrest hrest'

theorem evalEqualWith (h : Related ops ops' known targets rel) :
    ∀ arms : Arms, (∀ name ∈ arms.accessed, known name) →
      (∀ name ∈ arms.assigned, targets name) → ∀ subject : Value,
      rel (arms.evalEqualWith ops subject) (arms.evalEqualWith ops' subject)
  | .none, _, _, _ => h.pure _
  | .otherwise body, hknown, htargets, _ => by
      rw [Arms.evalEqualWith, Arms.evalEqualWith]
      exact h.evalWith body hknown htargets
  | .arm guard body rest, hknown, htargets, subject => by
      have ⟨hfirst, hrest⟩ := List.forall_mem_append.1 hknown
      have ⟨hguard, hbody⟩ := List.forall_mem_append.1 hfirst
      have ⟨hfirst', hrest'⟩ := List.forall_mem_append.1 htargets
      have ⟨hguard', hbody'⟩ := List.forall_mem_append.1 hfirst'
      rw [Arms.evalEqualWith, Arms.evalEqualWith]
      refine h.bind (h.evalWith guard hguard hguard') fun v => ?_
      split
      · exact h.evalWith body hbody hbody'
      · exact h.evalEqualWith rest hrest hrest' subject

end

/-- Evaluations within two budgets are related when their operations are. -/
theorem eval {budget budget' : Budget} {rel : ∀ {α : Type}, Eval α → Eval α → Prop}
    (h : Related (.plain budget) (.plain budget') known targets rel) (e : Expr)
    (hknown : ∀ name ∈ e.accessed, known name) (htargets : ∀ name ∈ e.assigned, targets name) :
    rel (e.eval budget) (e.eval budget') := by
  have hrel := h.evalWith e hknown htargets
  rwa [Expr.evalWith_plain, Expr.evalWith_plain] at hrel

end Operations.Related

/-! ## Properties that evaluation keeps -/

/-- The property of computations is kept by every way in which evaluation builds them, as far as the
names that are bound are `targets`. -/
structure Eval.Closed (budget : Budget) (targets : String → Prop)
    (P : ∀ {α : Type}, Eval α → Prop) : Prop where
  pure : ∀ {α : Type} (a : α), P (Pure.pure a : Eval α)
  bind : ∀ {α β : Type} {x : Eval α} {f : α → Eval β}, P x → (∀ a, P (f a)) → P (x >>= f)
  get? : ∀ name, P (Eval.get? name)
  set : ∀ name, targets name → ∀ q, P (Eval.set name q)
  fail : ∀ {α : Type} {cause : Cause}, cause.OfOperation → ∀ pos, P (Eval.fail cause pos : Eval α)
  loop : ∀ pos {condition : Eval Quantity} {body : Eval Value}, P condition → P body →
    P (Eval.rounds budget pos condition body budget.fuel 0 .null)

namespace Eval.Closed

variable {budget : Budget} {targets : String → Prop} {P : ∀ {α : Type}, Eval α → Prop}

/-- A property is a relation that does not look at its second computation. -/
theorem related (h : Closed budget targets P) :
    Operations.Related (.plain budget) (.plain budget) (fun _ => True) targets fun x _ => P x where
  plain := Operations.isPlain_plain budget
  plain' := Operations.isPlain_plain budget
  pure := h.pure
  bind := h.bind
  get? name _ := h.get? name
  set := h.set
  fail := h.fail
  loop pos _ _ _ _ hcondition hbody := h.loop pos hcondition hbody

/-- Every evaluation has the property. -/
theorem eval (h : Closed budget targets P) (e : Expr)
    (htargets : ∀ name ∈ e.assigned, targets name) : P (e.eval budget) :=
  h.related.eval e (fun _ _ => trivial) htargets

theorem evalAll (h : Closed budget targets P) (es : List Expr)
    (htargets : ∀ name ∈ Expr.assignedAll es, targets name) : P (Expr.evalAll budget es) := by
  have hall := h.related.evalAllWith es (fun _ _ => trivial) htargets
  rwa [Expr.evalAllWith_plain] at hall

end Eval.Closed
end Reckoner
