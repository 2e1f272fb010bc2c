import Reckoner.Token.Basic

/-!
# Expressions

A program is a list of expressions; every statement is one and has a value. Choices of both kinds
share their shape: a chain of arms, each with a guard and a body, that ends with or without a last
resort.

* `Operator` — the operator of a node, as it was written;
* `Expr`, `Arms` — the trees;
* `Expr.pos` — the place that errors about an expression are reported at.
-/

namespace Reckoner

/-- The operator of a node: what it does and how it was spelled. -/
structure Operator where
  kind : Kind
  literal : String
  deriving DecidableEq

/-- The operator that a token stands for. -/
def Token.operator (t : Token) : Operator :=
  ⟨t.kind, t.literal⟩

mutual

/-- An expression. -/
inductive Expr where
  | num (value : Number) (pos : Position)
  | var (name : String) (pos : Position)
  | assign (name : String) (pos : Position) (value : Expr)
  | binary (op : Operator) (left right : Expr)
  | unary (op : Operator) (operand : Expr)
  /-- Statements one after another, with a list of results. -/
  | sequence (statements : List Expr)
  /-- The arms are tried in order until a guard is true. -/
  | choose (pos : Position) (arms : Arms)
  /-- The arms are tried in order until a guard equals the subject. -/
  | select (pos : Position) (subject : Expr) (arms : Arms)
  | loop (pos : Position) (condition : Expr) (body : List Expr)

/-- The arms of a choice. -/
inductive Arms where
  | none
  /-- The last resort. -/
  | otherwise (body : Expr)
  | arm (guard body : Expr) (rest : Arms)

end

/-- A program: its statements in order. -/
abbrev Program := List Expr

namespace Expr

/-- The place of an expression. An operation has the line of its left and the column of its right
operand; a sequence has no place of its own. -/
def pos : Expr → Position
  | .num _ pos => pos
  | .var _ pos => pos
  | .assign _ pos _ => pos
  | .binary _ left right => ⟨left.pos.line, right.pos.column⟩
  | .unary _ operand => operand.pos
  | .sequence _ => .nowhere
  | .choose pos _ => pos
  | .select pos _ _ => pos
  | .loop pos _ _ => pos

end Expr

namespace Arms

/-- Arms from pairs of guards and bodies, with an optional last resort. -/
def ofList (cases : List (Expr × Expr)) (last : Option Expr) : Arms :=
  cases.foldr (fun c rest => .arm c.1 c.2 rest) (last.elim .none .otherwise)

/-- The guards with their bodies, in order. -/
def cases : Arms → List (Expr × Expr)
  | .none => []
  | .otherwise _ => []
  | .arm guard body rest => (guard, body) :: rest.cases

/-- The last resort. -/
def last? : Arms → Option Expr
  | .none => .none
  | .otherwise body => some body
  | .arm _ _ rest => rest.last?

end Arms
end Reckoner
