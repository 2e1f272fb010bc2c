import Reckoner.Expr.Basic

/-!
# Expressions as text

Every operation is in parentheses, so the text shows the tree and reads back as it.

* `Expr.text` — an expression;
* `Program.text` — a program, one statement on a line.
-/

namespace Reckoner

mutual

/-- An expression as text. -/
def Expr.text : Expr → String
  | .num value _ => value.text
  | .var name _ => name
  | .assign name _ value => "(" ++ name ++ " = " ++ value.text ++ ")"
  | .binary op left right => "(" ++ left.text ++ " " ++ op.literal ++ " " ++ right.text ++ ")"
  | .unary op operand =>
    if op.kind = .keyword then "(" ++ op.literal ++ " " ++ operand.text ++ ")"
    else "(" ++ op.literal ++ operand.text ++ ")"
  | .sequence statements => "\n".intercalate (Expr.texts statements)
  | .choose _ arms => arms.chooseText "if (" ++ " endif"
  | .select _ subject arms => "switch " ++ subject.text ++ arms.selectText ++ " endswitch"
  | .loop _ condition body =>
    "while (" ++ condition.text ++ ") then" ++ Expr.bodyText body ++ " endwhile"

/-- The texts of statements. -/
def Expr.texts : List Expr → List String
  | [] => []
  | e :: rest => e.text :: Expr.texts rest

/-- The statements of a loop, each after a blank. -/
def Expr.bodyText : List Expr → String
  | [] => ""
  | e :: rest => " " ++ e.text ++ Expr.bodyText rest

/-- The arms of a choice by truth; the first is opened by `opening`. -/
def Arms.chooseText : Arms → (opening : String) → String
  | .none, _ => ""
  | .otherwise body, _ => " else " ++ body.text
  | .arm guard body rest, opening =>
    opening ++ guard.text ++ ") then " ++ body.text ++ rest.chooseText " elif ("

/-- The arms of a choice by equality. -/
def Arms.selectText : Arms → String
  | .none => ""
  | .otherwise body => " default : " ++ body.text
  | .arm guard body rest => " case " ++ guard.text ++ " : " ++ body.text ++ rest.selectText

end

/-- A program as text. -/
def Program.text (program : Program) : String :=
  "\n".intercalate (Expr.texts program)

end Reckoner
