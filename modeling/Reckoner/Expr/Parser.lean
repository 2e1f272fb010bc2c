import Reckoner.Expr.Basic
import Reckoner.Fault
import Reckoner.Token.Lexer

/-!
# Parsing tokens into programs

Recursive descent with one token of lookahead and no backtracking. Statements follow each other
without a separator: each takes as many tokens as it can. Binary operators of one level associate to
the left; a power takes a signed factor on its right.

Nesting is counted where a statement, a `not` or a sign begins, and may be limited. Every production
answers with the tokens it left over together with a proof that they are fewer than before, which is
what makes the descent end.

* `Parsed` — what a production read, and what is left;
* `Level` — the levels of binary operators;
* `Parser.statement` and the productions below it;
* `Program.ofTokens`, `Program.ofSource` — whole programs.
-/

namespace Reckoner

/-! ## Tokens at hand -/

/-- What a production read from the tokens `before`, and the tokens left over. -/
structure Parsed (α : Type) (before : List Token) where
  value : α
  rest : List Token
  shorter : rest.length < before.length

/-- The token is what was wanted. -/
def Wanted.accepts : Wanted → Token → Bool
  | .identifier, t => t.kind == .identifier
  | .equals, t => t.kind == .assign
  | .openParen, t => t.kind == .openParen
  | .closeParen, t => t.kind == .closeParen
  | .colon, t => t.kind == .colon
  | .keyword word, t => t.isKeyword word
  | .operand, _ => false

/-- The levels of binary operators, the loosest first. -/
inductive Level where
  | logic
  | comparison
  | sum
  | product
  | power
  deriving DecidableEq

/-- The token is an operator of the level. -/
def Level.accepts : Level → Token → Bool
  | .logic, t => t.isKeyword "and" || t.isKeyword "or"
  | .comparison, t =>
    match t.kind with
    | .equal | .notEqual | .greater | .greaterEqual | .less | .lessEqual => true
    | _ => false
  | .sum, t => t.kind == .plus || t.kind == .minus || t.kind == .mod
  | .product, t => t.kind == .mul || t.kind == .div
  | .power, t => t.kind == .pow

/-- How far above the atoms a level stands in the descent. -/
def Level.rank : Level → Nat
  | .power => 2
  | .product => 5
  | .sum => 7
  | .comparison => 9
  | .logic => 12

theorem Level.rank_le (level : Level) : level.rank ≤ 12 := by
  cases level <;> simp [Level.rank]

/-- The token is a sign before a factor. -/
def Token.isSign (t : Token) : Bool :=
  t.kind == .plus || t.kind == .minus

namespace Parser

/-- The outcome of a production on the tokens `before`. -/
abbrev Step (α : Type) (before : List Token) := Except Fault (Parsed α before)

/-- What does not change in the course of a parse: the greatest nesting, zero for no limit, and the
end-of-input token that stands after all others. -/
structure Rules where
  limit : Nat
  stop : Token

/-- The token at hand. -/
def Rules.current (r : Rules) (ts : List Token) : Token :=
  ts.headD r.stop

/-- One level deeper, unless that is over the limit. -/
def Rules.enter (r : Rules) (depth : Nat) (ts : List Token) : Except Fault Nat :=
  if 0 < r.limit ∧ r.limit < depth + 1 then .error ⟨.tooDeep r.limit, (r.current ts).pos⟩
  else .ok (depth + 1)

/-- Takes the token that must come next. -/
def Rules.expect (r : Rules) (wanted : Wanted) : (ts : List Token) → Step Token ts
  | [] => .error ⟨.unexpected wanted r.stop, r.stop.pos⟩
  | t :: rest =>
    if wanted.accepts t then .ok ⟨t, rest, by simp⟩
    else .error ⟨.unexpected wanted t, t.pos⟩

/-- The number that a token's literal stands for: an integer literal that is no word is a binary
number. -/
def literal (t : Token) : Except Fault Number :=
  let number? :=
    match t.kind with
    | .int => Number.ofText? t.literal
    | _ => t.float.toOption.map .float
  match number? with
  | some n => .ok n
  | none => .error ⟨.badNumber t.literal, t.pos⟩

/-! ## The productions -/

mutual

/-- A statement: a request to exit, an assignment, or an expression. An exit is no expression; it
ends the parse, and with it the run, before anything is evaluated. -/
def statement (r : Rules) (depth : Nat) (ts : List Token) : Step Expr ts :=
  match r.enter depth ts with
  | .error fault => .error fault
  | .ok depth =>
    match ts with
    | [] => climb r depth .logic []
    | t :: rest =>
      if t.isKeyword "exit" then do
        let left ← r.expect .openParen rest
        let _ ← r.expect .closeParen left.rest
        .error ⟨.exit, t.pos⟩
      else if t.isKeyword "var" then do
        let name ← r.expect .identifier rest
        let equals ← r.expect .equals name.rest
        have := name.shorter
        have := equals.shorter
        let value ← statement r depth equals.rest
        have := value.shorter
        return ⟨.assign name.value.literal name.value.pos value.value, value.rest,
          by simp only [List.length_cons]; omega⟩
      else
        match rest with
        | [] => climb r depth .logic [t]
        | equals :: more =>
          if t.kind == .identifier && equals.kind == .assign then do
            let value ← statement r depth more
            have := value.shorter
            return ⟨.assign t.literal t.pos value.value, value.rest,
              by simp only [List.length_cons]; omega⟩
          else climb r depth .logic (t :: equals :: more)
termination_by (ts.length, 14)
decreasing_by
  all_goals (simp only [Prod.lex_def, Level.rank, List.length_cons, true_and] at *; omega)

/-- Operands of one level joined by its operators. -/
def climb (r : Rules) (depth : Nat) (level : Level) (ts : List Token) : Step Expr ts := do
  let first ← leading r depth level ts
  have := first.shorter
  chain r depth level first.value first.rest first.shorter
termination_by (ts.length, level.rank + 1)
decreasing_by all_goals (simp only [Prod.lex_def, Level.rank, true_and] at *; omega)

/-- The first operand of a level. -/
def leading (r : Rules) (depth : Nat) (level : Level) (ts : List Token) : Step Expr ts :=
  match level with
  | .logic => comparison r depth ts
  | .comparison => climb r depth .sum ts
  | .sum => climb r depth .product ts
  | .product => factor r depth ts
  | .power => atom r depth ts
termination_by (ts.length, level.rank)
decreasing_by all_goals (simp only [Prod.lex_def, Level.rank, true_and] at *; omega)

/-- A later operand of a level: a power has a signed factor there. -/
def trailing (r : Rules) (depth : Nat) (level : Level) (ts : List Token) : Step Expr ts :=
  have := level.rank_le
  if level = .power then factor r depth ts else leading r depth level ts
termination_by (ts.length, 13)
decreasing_by all_goals (simp only [Prod.lex_def, true_and] at *; omega)

/-- Goes on with operators of the level and their right operands. -/
def chain (r : Rules) (depth : Nat) (level : Level) {before : List Token} (left : Expr)
    (ts : List Token) (shorter : ts.length < before.length) : Step Expr before :=
  match ts with
  | [] => .ok ⟨left, [], shorter⟩
  | t :: rest =>
    if level.accepts t then do
      let right ← trailing r depth level rest
      have := right.shorter
      chain r depth level (.binary t.operator left right.value) right.rest
        (by simp only [List.length_cons] at shorter; omega)
    else .ok ⟨left, t :: rest, shorter⟩
termination_by (ts.length, 14)
decreasing_by all_goals (simp only [Prod.lex_def, List.length_cons] at *; omega)

/-- Comparisons, possibly negated. -/
def comparison (r : Rules) (depth : Nat) (ts : List Token) : Step Expr ts :=
  match ts with
  | [] => climb r depth .comparison []
  | t :: rest =>
    if t.isKeyword "not" then do
      let depth ← r.enter depth (t :: rest)
      let operand ← comparison r depth rest
      have := operand.shorter
      return ⟨.unary t.operator operand.value, operand.rest,
        by simp only [List.length_cons]; omega⟩
    else climb r depth .comparison (t :: rest)
termination_by (ts.length, 11)
decreasing_by
  all_goals (simp only [Prod.lex_def, Level.rank, List.length_cons, true_and] at *; omega)

/-- A power, possibly signed. -/
def factor (r : Rules) (depth : Nat) (ts : List Token) : Step Expr ts :=
  match ts with
  | [] => climb r depth .power []
  | t :: rest =>
    if t.isSign then do
      let depth ← r.enter depth (t :: rest)
      let operand ← factor r depth rest
      have := operand.shorter
      return ⟨.unary t.operator operand.value, operand.rest,
        by simp only [List.length_cons]; omega⟩
    else climb r depth .power (t :: rest)
termination_by (ts.length, 4)
decreasing_by
  all_goals (simp only [Prod.lex_def, Level.rank, List.length_cons, true_and] at *; omega)

/-- A number, a variable, a statement in parentheses, a choice or a loop. -/
def atom (r : Rules) (depth : Nat) (ts : List Token) : Step Expr ts :=
  match ts with
  | [] => .error ⟨.unexpected .operand r.stop, r.stop.pos⟩
  | t :: rest =>
    match t.kind with
    | .int | .float => do
      let value ← literal t
      return ⟨.num value t.pos, rest, by simp⟩
    | .identifier => .ok ⟨.var t.literal t.pos, rest, by simp⟩
    | .openParen => parens r depth (t :: rest)
    | _ =>
      if t.isKeyword "if" then do
        let first ← conditional r depth rest
        have := first.shorter
        let others ← chooseArms r depth first.rest first.shorter
        have := others.shorter
        return ⟨.choose t.pos (.arm first.value.1 first.value.2 others.value), others.rest,
          by simp only [List.length_cons]; omega⟩
      else if t.isKeyword "switch" then do
        let subject ← statement r depth rest
        have := subject.shorter
        let arms ← selectArms r depth subject.rest subject.shorter
        have := arms.shorter
        return ⟨.select t.pos subject.value arms.value, arms.rest,
          by simp only [List.length_cons]; omega⟩
      else if t.isKeyword "while" then do
        let condition ← parens r depth rest
        let opened ← r.expect (.keyword "then") condition.rest
        have := condition.shorter
        have := opened.shorter
        let body ← loopBody r depth opened.rest opened.shorter
        have := body.shorter
        return ⟨.loop t.pos condition.value body.value, body.rest,
          by simp only [List.length_cons]; omega⟩
      else .error ⟨.unexpected .operand t, t.pos⟩
termination_by (ts.length, 1)
decreasing_by all_goals (simp only [Prod.lex_def, List.length_cons, true_and] at *; omega)

/-- A statement in parentheses. -/
def parens (r : Rules) (depth : Nat) (ts : List Token) : Step Expr ts := do
  let left ← r.expect .openParen ts
  have := left.shorter
  let inner ← statement r depth left.rest
  let right ← r.expect .closeParen inner.rest
  have := inner.shorter
  have := right.shorter
  return ⟨inner.value, right.rest, by omega⟩
termination_by (ts.length, 0)
decreasing_by all_goals (simp only [Prod.lex_def] at *; omega)

/-- A condition in parentheses and what is done when it holds. -/
def conditional (r : Rules) (depth : Nat) (ts : List Token) : Step (Expr × Expr) ts := do
  let condition ← parens r depth ts
  let opened ← r.expect (.keyword "then") condition.rest
  have := condition.shorter
  have := opened.shorter
  let body ← statement r depth opened.rest
  have := body.shorter
  return ⟨(condition.value, body.value), body.rest, by omega⟩
termination_by (ts.length, 1)
decreasing_by all_goals (simp only [Prod.lex_def, true_and] at *; omega)

/-- The arms of a choice by truth after the first, up to its end. -/
def chooseArms (r : Rules) (depth : Nat) {before : List Token} (ts : List Token)
    (shorter : ts.length < before.length) : Step Arms before :=
  match ts with
  | [] => do
    let close ← r.expect (.keyword "endif") []
    have := close.shorter
    return ⟨.none, close.rest, by omega⟩
  | t :: rest =>
    if t.isKeyword "elif" then do
      let case ← conditional r depth rest
      have := case.shorter
      have ahead : case.rest.length < before.length := by
        simp only [List.length_cons] at shorter; omega
      let others ← chooseArms r depth case.rest ahead
      return ⟨.arm case.value.1 case.value.2 others.value, others.rest, others.shorter⟩
    else if t.isKeyword "else" then do
      let last ← statement r depth rest
      let close ← r.expect (.keyword "endif") last.rest
      have := last.shorter
      have := close.shorter
      return ⟨.otherwise last.value, close.rest,
        by simp only [List.length_cons] at shorter; omega⟩
    else do
      let close ← r.expect (.keyword "endif") (t :: rest)
      have := close.shorter
      return ⟨.none, close.rest, by omega⟩
termination_by (ts.length, 14)
decreasing_by all_goals (simp only [Prod.lex_def, List.length_cons] at *; omega)

/-- The arms of a choice by equality, up to its end. -/
def selectArms (r : Rules) (depth : Nat) {before : List Token} (ts : List Token)
    (shorter : ts.length < before.length) : Step Arms before :=
  match ts with
  | [] => do
    let close ← r.expect (.keyword "endswitch") []
    have := close.shorter
    return ⟨.none, close.rest, by omega⟩
  | t :: rest =>
    if t.isKeyword "case" then do
      let guard ← statement r depth rest
      let colon ← r.expect .colon guard.rest
      have := guard.shorter
      have := colon.shorter
      let body ← statement r depth colon.rest
      have := body.shorter
      have ahead : body.rest.length < before.length := by
        simp only [List.length_cons] at shorter; omega
      let others ← selectArms r depth body.rest ahead
      return ⟨.arm guard.value body.value others.value, others.rest, others.shorter⟩
    else if t.isKeyword "default" then do
      let colon ← r.expect .colon rest
      have := colon.shorter
      let last ← statement r depth colon.rest
      let close ← r.expect (.keyword "endswitch") last.rest
      have := last.shorter
      have := close.shorter
      return ⟨.otherwise last.value, close.rest,
        by simp only [List.length_cons] at shorter; omega⟩
    else do
      let close ← r.expect (.keyword "endswitch") (t :: rest)
      have := close.shorter
      return ⟨.none, close.rest, by omega⟩
termination_by (ts.length, 14)
decreasing_by all_goals (simp only [Prod.lex_def, List.length_cons] at *; omega)

/-- The statements of a loop, up to its end. -/
def loopBody (r : Rules) (depth : Nat) {before : List Token} (ts : List Token)
    (shorter : ts.length < before.length) : Step (List Expr) before :=
  match ts with
  | [] => do
    let close ← r.expect (.keyword "endwhile") []
    have := close.shorter
    return ⟨[], close.rest, by omega⟩
  | t :: rest =>
    if t.isKeyword "endwhile" || t.kind == .eof then do
      let close ← r.expect (.keyword "endwhile") (t :: rest)
      have := close.shorter
      return ⟨[], close.rest, by omega⟩
    else do
      let first ← statement r depth (t :: rest)
      have := first.shorter
      have ahead : first.rest.length < before.length := by omega
      let others ← loopBody r depth first.rest ahead
      return ⟨first.value :: others.value, others.rest, others.shorter⟩
termination_by (ts.length, 15)
decreasing_by all_goals (simp only [Prod.lex_def, List.length_cons, true_and] at *; omega)

end

/-- Statements up to the end of input. -/
def program (r : Rules) (ts : List Token) : Except Fault Program :=
  match ts with
  | [] => .ok []
  | t :: rest =>
    if t.kind == .eof then .ok []
    else do
      let first ← statement r 0 (t :: rest)
      have := first.shorter
      let others ← program r first.rest
      return first.value :: others
termination_by ts.length
decreasing_by exact first.shorter

end Parser

/-! ## Whole programs -/

/-- The end-of-input token of a list of tokens: the last, if it is one, else one right after it. -/
def endToken (tokens : List Token) : Token :=
  match tokens.getLast? with
  | none => ⟨.eof, "", .start⟩
  | some last =>
    if last.kind == .eof then last else ⟨.eof, "", ⟨last.pos.line, last.pos.column + 1⟩⟩

/-- The tokens before a closing end-of-input token. -/
def innerTokens (tokens : List Token) : List Token :=
  match tokens.getLast? with
  | none => []
  | some last => if last.kind == .eof then tokens.dropLast else tokens

/-- The program that a list of tokens writes, with nesting up to `limit`, or without one for zero.
-/
def Program.ofTokens (limit : Nat) (tokens : List Token) : Except Fault Program :=
  Parser.program ⟨limit, endToken tokens⟩ (innerTokens tokens)

/-- The program that a source writes. -/
def Program.ofSource (limit : Nat) (source : List Char) : Except Fault Program := do
  Program.ofTokens limit (← Token.scan source)

end Reckoner
