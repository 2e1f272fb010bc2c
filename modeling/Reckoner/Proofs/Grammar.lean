import Reckoner.Expr.Parser

/-!
# The grammar

The language by its productions, without regard to how it is parsed:

```
statement  := 'var' IDENT '=' statement | IDENT '=' statement | or_expr
or_expr    := comp_expr (('and'|'or') comp_expr)*
comp_expr  := 'not' comp_expr | arith_expr (('=='|'!='|'>'|'>='|'<'|'<=') arith_expr)*
arith_expr := term (('+'|'-'|MOD) term)*
term       := factor (('*'|DIV) factor)*
factor     := ('+'|'-') factor | power
power      := atom ('^' factor)*
atom       := INT | FLOAT | IDENT | '(' statement ')' | if_expr | switch_expr | while_expr
```

A chain of operators makes a tree that leans to the left. Statements follow each other without a
separator, so a list of tokens may have many derivations.

* `Symbol`, `Symbol.Tree` — the parts of the grammar, and the trees they write;
* `Derives` — the tokens that write a tree;
* `Token.Denotes` — the number that a literal stands for.
-/

namespace Reckoner

/-! ## Symbols -/

/-- The parts that write one expression. -/
inductive Phrase where
  | statement
  /-- Operands joined by the operators of a level. -/
  | chain (level : Level)
  /-- Comparisons behind any number of `not`. -/
  | negation
  /-- A power behind any number of signs. -/
  | factor
  | atom
  /-- A statement in parentheses. -/
  | group

/-- The parts of the grammar. -/
inductive Symbol where
  | phrase (p : Phrase)
  /-- A condition in parentheses, `then` and a statement. -/
  | conditional
  /-- The further arms of a choice by truth, and its end. -/
  | chooseArms
  /-- The arms of a choice by equality, and its end. -/
  | selectArms
  | statements

/-- What a part of the grammar writes. -/
abbrev Symbol.Tree : Symbol → Type
  | .phrase _ => Expr
  | .conditional => Expr × Expr
  | .chooseArms => Arms
  | .selectArms => Arms
  | .statements => List Expr

/-- The first operand of a level. -/
def Level.first : Level → Phrase
  | .logic => .negation
  | .comparison => .chain .sum
  | .sum => .chain .product
  | .product => .factor
  | .power => .atom

/-- The later operands of a level: behind a power stands a factor. -/
def Level.later : Level → Phrase
  | .power => .factor
  | level => level.first

/-- The operators of a level. -/
inductive Joins : Level → Token → Prop where
  | logic {t : Token} : t.isKeyword "and" ∨ t.isKeyword "or" → Joins .logic t
  | comparison {t : Token} :
      t.kind ∈ [Kind.equal, .notEqual, .greater, .greaterEqual, .less, .lessEqual] →
        Joins .comparison t
  | sum {t : Token} : t.kind ∈ [Kind.plus, .minus, .mod] → Joins .sum t
  | product {t : Token} : t.kind ∈ [Kind.mul, .div] → Joins .product t
  | power {t : Token} : t.kind = .pow → Joins .power t

/-! ## Numbers -/

/-- The token is a literal of a number. -/
def Token.IsNumeral (t : Token) : Prop :=
  t.kind = .int ∨ t.kind = .float

/-- The number that a literal stands for: an integer literal that is no word is read as a binary
number. -/
inductive Token.Denotes : Token → Number → Prop where
  | int {t : Token} {i : Int64} : t.kind = .int → t.int = .ok i → Denotes t (.int i)
  | wide {t : Token} {e : ReadError} {x : Float} :
      t.kind = .int → t.int = .error e → t.float = .ok x → Denotes t (.float x)
  | float {t : Token} {x : Float} : t.kind = .float → t.float = .ok x → Denotes t (.float x)

/-! ## Derivations -/

/-- The tokens write the tree as a part of the grammar. A literal may write any number that `value`
gives it. -/
inductive Derives (value : Token → Number → Prop) : (s : Symbol) → s.Tree → List Token → Prop where
  | declare {v name equals : Token} {e : Expr} {ts : List Token} :
      v.isKeyword "var" → name.kind = .identifier → equals.kind = .assign →
        Derives value (.phrase .statement) e ts →
          Derives value (.phrase .statement) (.assign name.literal name.pos e)
            (v :: name :: equals :: ts)
  | assign {name equals : Token} {e : Expr} {ts : List Token} :
      name.kind = .identifier → equals.kind = .assign →
        Derives value (.phrase .statement) e ts →
          Derives value (.phrase .statement) (.assign name.literal name.pos e)
            (name :: equals :: ts)
  | expression {e : Expr} {ts : List Token} :
      Derives value (.phrase (.chain .logic)) e ts → Derives value (.phrase .statement) e ts
  | first {level : Level} {e : Expr} {ts : List Token} :
      Derives value (.phrase level.first) e ts → Derives value (.phrase (.chain level)) e ts
  | joined {level : Level} {op : Token} {left right : Expr} {ts us : List Token} :
      Joins level op → Derives value (.phrase (.chain level)) left ts →
        Derives value (.phrase level.later) right us →
          Derives value (.phrase (.chain level)) (.binary op.operator left right) (ts ++ op :: us)
  | negated {op : Token} {e : Expr} {ts : List Token} :
      op.isKeyword "not" → Derives value (.phrase .negation) e ts →
        Derives value (.phrase .negation) (.unary op.operator e) (op :: ts)
  | compared {e : Expr} {ts : List Token} :
      Derives value (.phrase (.chain .comparison)) e ts → Derives value (.phrase .negation) e ts
  | signed {op : Token} {e : Expr} {ts : List Token} :
      op.kind = .plus ∨ op.kind = .minus → Derives value (.phrase .factor) e ts →
        Derives value (.phrase .factor) (.unary op.operator e) (op :: ts)
  | unsigned {e : Expr} {ts : List Token} :
      Derives value (.phrase (.chain .power)) e ts → Derives value (.phrase .factor) e ts
  | number {t : Token} {n : Number} :
      t.IsNumeral → value t n → Derives value (.phrase .atom) (.num n t.pos) [t]
  | named {t : Token} :
      t.kind = .identifier → Derives value (.phrase .atom) (.var t.literal t.pos) [t]
  | grouped {e : Expr} {ts : List Token} :
      Derives value (.phrase .group) e ts → Derives value (.phrase .atom) e ts
  | choose {t : Token} {condition body : Expr} {arms : Arms} {ts us : List Token} :
      t.isKeyword "if" → Derives value .conditional (condition, body) ts →
        Derives value .chooseArms arms us →
          Derives value (.phrase .atom) (.choose t.pos (.arm condition body arms)) (t :: ts ++ us)
  | select {t : Token} {subject : Expr} {arms : Arms} {ts us : List Token} :
      t.isKeyword "switch" → Derives value (.phrase .statement) subject ts →
        Derives value .selectArms arms us →
          Derives value (.phrase .atom) (.select t.pos subject arms) (t :: ts ++ us)
  | loop {t opening closing : Token} {condition : Expr} {body : List Expr} {ts us : List Token} :
      t.isKeyword "while" → opening.isKeyword "then" → closing.isKeyword "endwhile" →
        Derives value (.phrase .group) condition ts → Derives value .statements body us →
          Derives value (.phrase .atom) (.loop t.pos condition body)
            (t :: ts ++ opening :: us ++ [closing])
  | group {opening closing : Token} {e : Expr} {ts : List Token} :
      opening.kind = .openParen → closing.kind = .closeParen →
        Derives value (.phrase .statement) e ts →
          Derives value (.phrase .group) e (opening :: ts ++ [closing])
  | conditional {opening : Token} {condition body : Expr} {ts us : List Token} :
      opening.isKeyword "then" → Derives value (.phrase .group) condition ts →
        Derives value (.phrase .statement) body us →
          Derives value .conditional (condition, body) (ts ++ opening :: us)
  | endif {t : Token} : t.isKeyword "endif" → Derives value .chooseArms .none [t]
  | otherwise {t closing : Token} {e : Expr} {ts : List Token} :
      t.isKeyword "else" → closing.isKeyword "endif" → Derives value (.phrase .statement) e ts →
        Derives value .chooseArms (.otherwise e) (t :: ts ++ [closing])
  | elif {t : Token} {condition body : Expr} {arms : Arms} {ts us : List Token} :
      t.isKeyword "elif" → Derives value .conditional (condition, body) ts →
        Derives value .chooseArms arms us →
          Derives value .chooseArms (.arm condition body arms) (t :: ts ++ us)
  | endswitch {t : Token} : t.isKeyword "endswitch" → Derives value .selectArms .none [t]
  | default {t colon closing : Token} {e : Expr} {ts : List Token} :
      t.isKeyword "default" → colon.kind = .colon → closing.isKeyword "endswitch" →
        Derives value (.phrase .statement) e ts →
          Derives value .selectArms (.otherwise e) (t :: colon :: ts ++ [closing])
  | case {t colon : Token} {guard body : Expr} {arms : Arms} {ts us vs : List Token} :
      t.isKeyword "case" → colon.kind = .colon → Derives value (.phrase .statement) guard ts →
        Derives value (.phrase .statement) body us → Derives value .selectArms arms vs →
          Derives value .selectArms (.arm guard body arms) (t :: ts ++ colon :: us ++ vs)
  | nil : Derives value .statements [] []
  | cons {e : Expr} {es : List Expr} {ts us : List Token} :
      Derives value (.phrase .statement) e ts → Derives value .statements es us →
        Derives value .statements (e :: es) (ts ++ us)

end Reckoner
