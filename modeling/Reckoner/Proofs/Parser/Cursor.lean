import Reckoner.Proofs.Grammar

/-!
# The parser with a cursor and a counter

The productions of the parser hand on the tokens that are left, and pass the depth of nesting down.
Here the list of tokens stays whole, and a cursor moves over it. On the last token the cursor stays
where it is, so that a loop which took tokens without looking at them would never end; nothing else
in the productions sees to it that they do. So calls are counted: each production is called with a
number of calls that it may make one inside the other, and gives up where it has none. The depth is
a counter, which is raised where a statement, a `not` or a sign begins and lowered where it ends,
also when it ends with a fault.

The cursor remembers where it stood whenever it was to be moved, and the greatest value that the
counter has had. A production answers nothing where it has given up or has looked at a place outside
the list.

* `Cursor`, `Walk` — where the parser stands, and computations that move on from there;
* `Walk.current`, `Walk.skip`, `Walk.assigns` — looking at the token at hand, taking it, and looking
  at the one behind it;
* `Walk.nested` — a computation one level deeper;
* `Walk.phrase`, `Walk.chain` and their companions — the productions;
* `Walk.program`, `Walk.ofTokens` — whole programs;
* `Walk.starts` — the counter at the beginning of each statement of a program.
-/

namespace Reckoner.Parser

/-- Where the parser stands: the place of the token at hand, and the counter of nesting. -/
structure Cursor where
  pos : Nat
  /-- Where the parser stood whenever it was to move on, the last time first. -/
  moves : List Nat
  depth : Nat
  /-- The greatest value that the counter has had. -/
  peak : Nat

namespace Cursor

/-- At the first token, outside of all nesting. -/
def start : Cursor :=
  ⟨0, [], 0, 0⟩

/-- One level deeper. -/
def enter (c : Cursor) : Cursor :=
  { c with depth := c.depth + 1, peak := max c.peak (c.depth + 1) }

/-- One level less deep. -/
def leave (c : Cursor) : Cursor :=
  { c with depth := c.depth - 1 }

end Cursor

/-- A computation over a list of tokens that moves the cursor. -/
def Walk (α : Type) : Type :=
  List Token → Cursor → Option (Except Fault α × Cursor)

namespace Walk

instance : Monad Walk where
  pure a := fun _ c => some (.ok a, c)
  bind x f := fun tokens c =>
    match x tokens c with
    | none => none
    | some (.ok a, c) => f a tokens c
    | some (.error fault, c) => some (.error fault, c)

variable {α β : Type} {x : Walk α} {f : α → Walk β} {tokens : List Token} {c after : Cursor}

theorem bind_of_ok {a : α} (h : x tokens c = some (.ok a, after)) :
    (x >>= f) tokens c = f a tokens after := by
  change (match x tokens c with
    | none => none
    | some (.ok a, c) => f a tokens c
    | some (.error fault, c) => some (.error fault, c)) = _
  rw [h]

theorem bind_of_error {fault : Fault} (h : x tokens c = some (.error fault, after)) :
    (x >>= f) tokens c = some (.error fault, after) := by
  change (match x tokens c with
    | none => none
    | some (.ok a, c) => f a tokens c
    | some (.error fault, c) => some (.error fault, c)) = _
  rw [h]

/-- One walk after another comes to what the second comes to, or to the fault of the first. -/
theorem bind_eq_some {outcome : Except Fault β} (h : (x >>= f) tokens c = some (outcome, after)) :
    (∃ a mid, x tokens c = some (.ok a, mid) ∧ f a tokens mid = some (outcome, after)) ∨
      ∃ fault, x tokens c = some (.error fault, after) ∧ outcome = .error fault := by
  change (match x tokens c with
    | none => none
    | some (.ok a, c) => f a tokens c
    | some (.error fault, c) => some (.error fault, c)) = _ at h
  split at h
  · cases h
  · next a mid hx => exact .inl ⟨a, mid, hx, h⟩
  · next fault mid hx =>
      cases h
      exact .inr ⟨fault, hx, rfl⟩

/-! ## Steps -/

/-- No calls are left. -/
def stuck : Walk α :=
  fun _ _ => none

/-- An outcome that the tokens have no part in. -/
def lift (x : Except Fault α) : Walk α :=
  fun _ c => some (x, c)

/-- The token at the cursor. -/
def current : Walk Token :=
  fun tokens c => tokens[c.pos]?.map fun t => (.ok t, c)

/-- The token behind the one at the cursor, or the last one. -/
def peek : Walk Token :=
  fun tokens c => (tokens[c.pos + 1]?.or tokens.getLast?).map fun t => (.ok t, c)

/-- Moves the cursor to the next token, but not away from the last one. -/
def skip : Walk Unit :=
  fun tokens c =>
    -- A move from the last token is remembered like any other, though the cursor stays.
    let next := if c.pos + 1 < tokens.length then c.pos + 1 else c.pos
    tokens[next]?.map fun _ => (.ok (), { c with pos := next, moves := c.pos :: c.moves })

/-- Takes the token that must come next. -/
def expect (wanted : Wanted) : Walk Token := do
  let t ← current
  if wanted.accepts t then do
    skip
    pure t
  else lift (.error ⟨.unexpected wanted t, t.pos⟩)

/-- A computation one level deeper, unless that is over the limit. The counter is raised before it
is compared, and lowered again after the computation, whatever its outcome. -/
def nested (limit : Nat) (x : Walk α) : Walk α :=
  fun tokens c =>
    match tokens[c.pos]? with
    | none => none
    | some t =>
      -- Over the limit the counter is left as high as it was raised: the parse ends there.
      if 0 < limit ∧ limit < c.depth + 1 then some (.error ⟨.tooDeep limit, t.pos⟩, c.enter)
      else (x tokens c.enter).map fun (outcome, after) => (outcome, after.leave)

theorem nested_of_lt {limit : Nat} {t : Token} (ht : tokens[c.pos]? = some t)
    (hdeep : 0 < limit ∧ limit < c.depth + 1) :
    nested limit x tokens c = some (.error ⟨.tooDeep limit, t.pos⟩, c.enter) := by
  rw [nested, ht]
  exact if_pos hdeep

theorem nested_of_le {limit : Nat} {t : Token} (ht : tokens[c.pos]? = some t)
    (hdeep : ¬ (0 < limit ∧ limit < c.depth + 1)) :
    nested limit x tokens c =
      (x tokens c.enter).map fun (outcome, after) => (outcome, after.leave) := by
  rw [nested, ht]
  exact if_neg hdeep

/-- The next two tokens begin an assignment. -/
def assigns : Walk Bool := do
  let t ← current
  if t.kind = .identifier then do
    let behind ← peek
    pure (behind.kind == .assign)
  else pure false

/-! ## The productions -/

mutual

/-- A phrase of the grammar. -/
def phrase (limit calls : Nat) (p : Phrase) : Walk Expr :=
  match calls with
  | 0 => stuck
  | calls + 1 =>
    match p with
    | .statement =>
      nested limit do
        let t ← current
        if t.isKeyword "exit" then do
          skip
          let _ ← expect .openParen
          let _ ← expect .closeParen
          lift (.error ⟨.exit, t.pos⟩)
        else if t.isKeyword "var" then do
          skip
          let name ← expect .identifier
          let _ ← expect .equals
          let value ← phrase limit calls .statement
          pure (.assign name.literal name.pos value)
        else do
          -- The name and the equals sign behind it are taken without another look.
          if ← assigns then do
            skip
            skip
            let value ← phrase limit calls .statement
            pure (.assign t.literal t.pos value)
          else phrase limit calls (.chain .logic)
    | .chain level => do
      let first ← phrase limit calls level.first
      chain limit calls level first
    | .negation => do
      let t ← current
      if t.isKeyword "not" then
        nested limit do
          skip
          let operand ← phrase limit calls .negation
          pure (.unary t.operator operand)
      else phrase limit calls (.chain .comparison)
    | .factor => do
      let t ← current
      if t.isSign then
        nested limit do
          skip
          let operand ← phrase limit calls .factor
          pure (.unary t.operator operand)
      else phrase limit calls (.chain .power)
    | .atom => do
      let t ← current
      if t.kind = .int ∨ t.kind = .float then do
        skip
        let n ← lift (literal t)
        pure (.num n t.pos)
      else if t.kind = .identifier then do
        skip
        pure (.var t.literal t.pos)
      else if t.kind = .openParen then phrase limit calls .group
      else if t.isKeyword "if" then do
        skip
        let first ← conditional limit calls
        let others ← chooseArms limit calls
        pure (.choose t.pos (.arm first.1 first.2 others))
      else if t.isKeyword "switch" then do
        skip
        let subject ← phrase limit calls .statement
        let arms ← selectArms limit calls
        pure (.select t.pos subject arms)
      else if t.isKeyword "while" then do
        skip
        let condition ← phrase limit calls .group
        let _ ← expect (.keyword "then")
        let body ← loopBody limit calls
        pure (.loop t.pos condition body)
      else lift (.error ⟨.unexpected .operand t, t.pos⟩)
    | .group => do
      let _ ← expect .openParen
      let inner ← phrase limit calls .statement
      let _ ← expect .closeParen
      pure inner

/-- Goes on with operators of the level and their right operands. -/
def chain (limit calls : Nat) (level : Level) (left : Expr) : Walk Expr :=
  match calls with
  | 0 => stuck
  | calls + 1 => do
    let t ← current
    if level.accepts t then do
      skip
      let right ← phrase limit calls level.later
      chain limit calls level (.binary t.operator left right)
    else pure left

/-- A condition in parentheses and what is done when it holds. -/
def conditional (limit calls : Nat) : Walk (Expr × Expr) :=
  match calls with
  | 0 => stuck
  | calls + 1 => do
    let condition ← phrase limit calls .group
    let _ ← expect (.keyword "then")
    let body ← phrase limit calls .statement
    pure (condition, body)

/-- The arms of a choice by truth after the first, up to its end. -/
def chooseArms (limit calls : Nat) : Walk Arms :=
  match calls with
  | 0 => stuck
  | calls + 1 => do
    let t ← current
    if t.isKeyword "elif" then do
      skip
      let case ← conditional limit calls
      let others ← chooseArms limit calls
      pure (.arm case.1 case.2 others)
    else if t.isKeyword "else" then do
      skip
      let last ← phrase limit calls .statement
      let _ ← expect (.keyword "endif")
      pure (.otherwise last)
    else do
      let _ ← expect (.keyword "endif")
      pure .none

/-- The arms of a choice by equality, up to its end. -/
def selectArms (limit calls : Nat) : Walk Arms :=
  match calls with
  | 0 => stuck
  | calls + 1 => do
    let t ← current
    if t.isKeyword "case" then do
      skip
      let guard ← phrase limit calls .statement
      let _ ← expect .colon
      let body ← phrase limit calls .statement
      let others ← selectArms limit calls
      pure (.arm guard body others)
    else if t.isKeyword "default" then do
      skip
      let _ ← expect .colon
      let last ← phrase limit calls .statement
      let _ ← expect (.keyword "endswitch")
      pure (.otherwise last)
    else do
      let _ ← expect (.keyword "endswitch")
      pure .none

/-- The statements of a loop, up to its end. -/
def loopBody (limit calls : Nat) : Walk (List Expr) :=
  match calls with
  | 0 => stuck
  | calls + 1 => do
    let t ← current
    -- At the end of input the word is missing, and asking for it is what says so.
    if t.isKeyword "endwhile" || t.kind == .eof then do
      let _ ← expect (.keyword "endwhile")
      pure []
    else do
      let first ← phrase limit calls .statement
      let others ← loopBody limit calls
      pure (first :: others)

end

/-! ## Whole programs -/

/-- Statements up to the end of input, each from where the counter stands. -/
def program (limit calls : Nat) : Walk Program :=
  match calls with
  | 0 => stuck
  | calls + 1 => do
    let t ← current
    if t.kind = .eof then pure []
    else do
      let first ← phrase limit calls .statement
      let others ← program limit calls
      pure (first :: others)

/-- The values of the counter at which the statements of a program begin. -/
def starts (limit calls : Nat) (tokens : List Token) (c : Cursor) : List Nat :=
  match calls with
  | 0 => []
  | calls + 1 =>
    match tokens[c.pos]? with
    | none => []
    | some t =>
      if t.kind = .eof then []
      else
        c.depth ::
          match phrase limit calls .statement tokens c with
          | some (.ok _, after) => starts limit calls tokens after
          | _ => []

/-- The tokens of a parse: those that are given, with one for the end of input behind them unless
the last is one. -/
def given (tokens : List Token) : List Token :=
  match tokens.getLast? with
  | none => [⟨.eof, "", .start⟩]
  | some last =>
    if last.kind = .eof then tokens
    else tokens ++ [⟨.eof, "", ⟨last.pos.line, last.pos.column + 1⟩⟩]

/-- The program that a list of tokens writes, with calls enough for its tokens. -/
def ofTokens (limit : Nat) (tokens : List Token) : Option (Except Fault Program × Cursor) :=
  program limit (12 * (given tokens).length) (given tokens) .start

end Walk
end Reckoner.Parser
