import Reckoner.Proofs.Parser.Productions

/-!
# Readings

Of the derivations of a list of tokens one is the reading that a parser without backtracking finds:
each statement takes as many tokens as it can, so that no statement begins with a sign when another
one stands before it, and a power takes all further powers into its exponent. A reading also counts
its nesting, and its literals stand for their own numbers.

* `Reads` — the readings;
* `Phrase.Opens` — the tokens that a phrase can begin with;
* `Closed` — no operator down to a rank comes next;
* `Reads.derives` — a reading is a derivation.
-/

namespace Reckoner

/-- The tokens are read as the tree, at a depth of nesting. -/
inductive Reads (limit : Nat) : Nat → (s : Symbol) → s.Tree → List Token → Prop where
  | declare {d : Nat} {v name equals : Token} {e : Expr} {ts : List Token} :
      Fits limit d → v.isKeyword "var" → name.kind = .identifier → equals.kind = .assign →
        Reads limit (d + 1) (.phrase .statement) e ts →
          Reads limit d (.phrase .statement) (.assign name.literal name.pos e)
            (v :: name :: equals :: ts)
  | assign {d : Nat} {name equals : Token} {e : Expr} {ts : List Token} :
      Fits limit d → name.kind = .identifier → equals.kind = .assign →
        Reads limit (d + 1) (.phrase .statement) e ts →
          Reads limit d (.phrase .statement) (.assign name.literal name.pos e)
            (name :: equals :: ts)
  | expression {d : Nat} {e : Expr} {ts : List Token} :
      Fits limit d → Reads limit (d + 1) (.phrase (.chain .logic)) e ts →
        Reads limit d (.phrase .statement) e ts
  | first {d : Nat} {level : Level} {e : Expr} {ts : List Token} :
      Reads limit d (.phrase level.first) e ts → Reads limit d (.phrase (.chain level)) e ts
  | joined {d : Nat} {level : Level} {op : Token} {left right : Expr} {ts us : List Token} :
      level ≠ .power → Joins level op → Reads limit d (.phrase (.chain level)) left ts →
        Reads limit d (.phrase level.first) right us →
          Reads limit d (.phrase (.chain level)) (.binary op.operator left right) (ts ++ op :: us)
  | raised {d : Nat} {op : Token} {left right : Expr} {ts us : List Token} :
      op.kind = .pow → Reads limit d (.phrase .atom) left ts →
        Reads limit d (.phrase .factor) right us →
          Reads limit d (.phrase (.chain .power)) (.binary op.operator left right) (ts ++ op :: us)
  | negated {d : Nat} {op : Token} {e : Expr} {ts : List Token} :
      Fits limit d → op.isKeyword "not" → Reads limit (d + 1) (.phrase .negation) e ts →
        Reads limit d (.phrase .negation) (.unary op.operator e) (op :: ts)
  | compared {d : Nat} {e : Expr} {ts : List Token} :
      Reads limit d (.phrase (.chain .comparison)) e ts → Reads limit d (.phrase .negation) e ts
  | signed {d : Nat} {op : Token} {e : Expr} {ts : List Token} :
      Fits limit d → op.isSign → Reads limit (d + 1) (.phrase .factor) e ts →
        Reads limit d (.phrase .factor) (.unary op.operator e) (op :: ts)
  | unsigned {d : Nat} {e : Expr} {ts : List Token} :
      Reads limit d (.phrase (.chain .power)) e ts → Reads limit d (.phrase .factor) e ts
  | number {d : Nat} {t : Token} {n : Number} :
      t.IsNumeral → t.Denotes n → Reads limit d (.phrase .atom) (.num n t.pos) [t]
  | named {d : Nat} {t : Token} :
      t.kind = .identifier → Reads limit d (.phrase .atom) (.var t.literal t.pos) [t]
  | grouped {d : Nat} {e : Expr} {ts : List Token} :
      Reads limit d (.phrase .group) e ts → Reads limit d (.phrase .atom) e ts
  | choose {d : Nat} {t : Token} {condition body : Expr} {arms : Arms} {ts us : List Token} :
      t.isKeyword "if" → Reads limit d .conditional (condition, body) ts →
        Reads limit d .chooseArms arms us →
          Reads limit d (.phrase .atom) (.choose t.pos (.arm condition body arms)) (t :: ts ++ us)
  | select {d : Nat} {t : Token} {subject : Expr} {arms : Arms} {ts us : List Token} :
      t.isKeyword "switch" → Reads limit d (.phrase .statement) subject ts →
        Reads limit d .selectArms arms us →
          Reads limit d (.phrase .atom) (.select t.pos subject arms) (t :: ts ++ us)
  | loop {d : Nat} {t opening closing : Token} {condition : Expr} {body : List Expr}
      {ts us : List Token} :
      t.isKeyword "while" → opening.isKeyword "then" → closing.isKeyword "endwhile" →
        Reads limit d (.phrase .group) condition ts → Reads limit d .statements body us →
          Reads limit d (.phrase .atom) (.loop t.pos condition body)
            (t :: ts ++ opening :: us ++ [closing])
  | group {d : Nat} {opening closing : Token} {e : Expr} {ts : List Token} :
      opening.kind = .openParen → closing.kind = .closeParen →
        Reads limit d (.phrase .statement) e ts →
          Reads limit d (.phrase .group) e (opening :: ts ++ [closing])
  | conditional {d : Nat} {opening : Token} {condition body : Expr} {ts us : List Token} :
      opening.isKeyword "then" → Reads limit d (.phrase .group) condition ts →
        Reads limit d (.phrase .statement) body us →
          Reads limit d .conditional (condition, body) (ts ++ opening :: us)
  | endif {d : Nat} {t : Token} : t.isKeyword "endif" → Reads limit d .chooseArms .none [t]
  | otherwise {d : Nat} {t closing : Token} {e : Expr} {ts : List Token} :
      t.isKeyword "else" → closing.isKeyword "endif" → Reads limit d (.phrase .statement) e ts →
        Reads limit d .chooseArms (.otherwise e) (t :: ts ++ [closing])
  | elif {d : Nat} {t : Token} {condition body : Expr} {arms : Arms} {ts us : List Token} :
      t.isKeyword "elif" → Reads limit d .conditional (condition, body) ts →
        Reads limit d .chooseArms arms us →
          Reads limit d .chooseArms (.arm condition body arms) (t :: ts ++ us)
  | endswitch {d : Nat} {t : Token} :
      t.isKeyword "endswitch" → Reads limit d .selectArms .none [t]
  | default {d : Nat} {t colon closing : Token} {e : Expr} {ts : List Token} :
      t.isKeyword "default" → colon.kind = .colon → closing.isKeyword "endswitch" →
        Reads limit d (.phrase .statement) e ts →
          Reads limit d .selectArms (.otherwise e) (t :: colon :: ts ++ [closing])
  | case {d : Nat} {t colon : Token} {guard body : Expr} {arms : Arms} {ts us vs : List Token} :
      t.isKeyword "case" → colon.kind = .colon → Reads limit d (.phrase .statement) guard ts →
        Reads limit d (.phrase .statement) body us → Reads limit d .selectArms arms vs →
          Reads limit d .selectArms (.arm guard body arms) (t :: ts ++ colon :: us ++ vs)
  | nil {d : Nat} : Reads limit d .statements [] []
  | cons {d : Nat} {e : Expr} {es : List Expr} {ts us : List Token} :
      (∀ t ∈ us.head?, t.isSign = false) → Reads limit d (.phrase .statement) e ts →
        Reads limit d .statements es us → Reads limit d .statements (e :: es) (ts ++ us)

/-! ## A reading is a derivation -/

theorem Token.isSign_iff {t : Token} : t.isSign ↔ t.kind = .plus ∨ t.kind = .minus := by
  simp [Token.isSign]

theorem Reads.derives {limit d : Nat} {s : Symbol} {tree : s.Tree} {ts : List Token}
    {value : Token → Number → Prop} (h : Reads limit d s tree ts)
    (hvalue : ∀ t n, t.Denotes n → value t n) : Derives value s tree ts := by
  induction h with
  | declare _ hv hname hequals _ ih => exact .declare hv hname hequals ih
  | assign _ hname hequals _ ih => exact .assign hname hequals ih
  | expression _ _ ih => exact .expression ih
  | first _ ih => exact .first ih
  | @joined _ level _ _ _ _ _ hlevel hop _ _ ihleft ihright =>
      refine .joined hop ihleft ?_
      cases level with
      | power => exact absurd rfl hlevel
      | _ => exact ihright
  -- A power is a chain of one operator, whose exponent holds the others.
  | raised hop _ _ ihleft ihright => exact .joined (.power hop) (.first ihleft) ihright
  | negated _ hop _ ih => exact .negated hop ih
  | compared _ ih => exact .compared ih
  | signed _ hop _ ih => exact .signed (Token.isSign_iff.1 hop) ih
  | unsigned _ ih => exact .unsigned ih
  | number ht hn => exact .number ht (hvalue _ _ hn)
  | named ht => exact .named ht
  | grouped _ ih => exact .grouped ih
  | choose ht _ _ ihfirst ihothers => exact .choose ht ihfirst ihothers
  | select ht _ _ ihsubject iharms => exact .select ht ihsubject iharms
  | loop ht hopening hclosing _ _ ihcondition ihbody =>
      exact .loop ht hopening hclosing ihcondition ihbody
  | group hopening hclosing _ ih => exact .group hopening hclosing ih
  | conditional hopening _ _ ihcondition ihbody => exact .conditional hopening ihcondition ihbody
  | endif ht => exact .endif ht
  | otherwise ht hclosing _ ih => exact .otherwise ht hclosing ih
  | elif ht _ _ ihfirst ihothers => exact .elif ht ihfirst ihothers
  | endswitch ht => exact .endswitch ht
  | default ht hcolon hclosing _ ih => exact .default ht hcolon hclosing ih
  | case ht hcolon _ _ _ ihguard ihbody ihothers => exact .case ht hcolon ihguard ihbody ihothers
  | nil => exact .nil
  | cons _ _ _ ihfirst ihothers => exact .cons ihfirst ihothers

/-! ## How a phrase begins -/

/-- The token can be the first of an atom. -/
def Token.OpensAtom (t : Token) : Prop :=
  t.IsNumeral ∨ t.kind = .identifier ∨ t.kind = .openParen ∨ t.isKeyword "if" ∨
    t.isKeyword "switch" ∨ t.isKeyword "while"

/-- The token can be the first of a phrase. -/
def Phrase.Opens : Phrase → Token → Prop
  | .group, t | .atom, t | .chain .power, t => t.OpensAtom
  | .factor, t | .chain .product, t | .chain .sum, t | .chain .comparison, t =>
    t.isSign ∨ t.OpensAtom
  | .negation, t | .chain .logic, t => t.isKeyword "not" ∨ t.isSign ∨ t.OpensAtom
  | .statement, t => t.isKeyword "var" ∨ t.isKeyword "not" ∨ t.isSign ∨ t.OpensAtom

theorem Level.opens_of_first {level : Level} {t : Token} (h : level.first.Opens t) :
    (Phrase.chain level).Opens t := by
  cases level <;> exact h

theorem Phrase.Opens.expression {p : Phrase} {t : Token} (h : p.Opens t) (hp : p ≠ .statement) :
    (Phrase.chain .logic).Opens t := by
  cases p with
  | statement => exact absurd rfl hp
  | negation => exact h
  | factor => exact .inr h
  | atom | group => exact .inr (.inr h)
  | chain level =>
      cases level with
      | logic => exact h
      | comparison | sum | product => exact .inr h
      | power => exact .inr (.inr h)

theorem Phrase.Opens.statement {p : Phrase} {t : Token} (h : p.Opens t) :
    Phrase.statement.Opens t := by
  cases p with
  | statement => exact h
  | _ => exact .inr (h.expression (by simp))

theorem Reads.exists_head {limit d : Nat} {s : Symbol} {tree : s.Tree} {ts : List Token}
    (h : Reads limit d s tree ts) :
    ∀ p, s = .phrase p → ∃ t us, ts = t :: us ∧ p.Opens t := by
  -- A part that begins with another part begins like it; the others show their first token.
  induction h with
  | declare _ hv _ _ _ _ =>
      rintro _ ⟨rfl⟩
      exact ⟨_, _, rfl, .inl hv⟩
  | assign _ hname _ _ _ =>
      rintro _ ⟨rfl⟩
      exact ⟨_, _, rfl, .inr (.inr (.inr (.inr (.inl hname))))⟩
  | expression _ _ ih =>
      rintro _ ⟨rfl⟩
      rcases ih _ rfl with ⟨t, us, hts, ht⟩
      exact ⟨t, us, hts, ht.statement⟩
  | first _ ih =>
      rintro _ ⟨rfl⟩
      rcases ih _ rfl with ⟨t, us, hts, ht⟩
      exact ⟨t, us, hts, Level.opens_of_first ht⟩
  | joined _ _ _ _ ihleft _ =>
      rintro _ ⟨rfl⟩
      rcases ihleft _ rfl with ⟨t, us, rfl, ht⟩
      exact ⟨t, _, rfl, ht⟩
  | raised _ _ _ ihleft _ =>
      rintro _ ⟨rfl⟩
      rcases ihleft _ rfl with ⟨t, us, rfl, ht⟩
      exact ⟨t, _, rfl, ht⟩
  | negated _ hop _ _ =>
      rintro _ ⟨rfl⟩
      exact ⟨_, _, rfl, .inl hop⟩
  | compared _ ih =>
      rintro _ ⟨rfl⟩
      rcases ih _ rfl with ⟨t, us, hts, ht⟩
      exact ⟨t, us, hts, .inr ht⟩
  | signed _ hop _ _ =>
      rintro _ ⟨rfl⟩
      exact ⟨_, _, rfl, .inl hop⟩
  | unsigned _ ih =>
      rintro _ ⟨rfl⟩
      rcases ih _ rfl with ⟨t, us, hts, ht⟩
      exact ⟨t, us, hts, .inr ht⟩
  | number ht _ =>
      rintro _ ⟨rfl⟩
      exact ⟨_, _, rfl, .inl ht⟩
  | named ht =>
      rintro _ ⟨rfl⟩
      exact ⟨_, _, rfl, .inr (.inl ht)⟩
  | grouped _ ih =>
      rintro _ ⟨rfl⟩
      exact ih .group rfl
  | choose ht _ _ _ _ =>
      rintro _ ⟨rfl⟩
      exact ⟨_, _, rfl, .inr (.inr (.inr (.inl ht)))⟩
  | select ht _ _ _ _ =>
      rintro _ ⟨rfl⟩
      exact ⟨_, _, rfl, .inr (.inr (.inr (.inr (.inl ht))))⟩
  | loop ht _ _ _ _ _ _ =>
      rintro _ ⟨rfl⟩
      exact ⟨_, _, rfl, .inr (.inr (.inr (.inr (.inr ht))))⟩
  | group hopening _ _ _ =>
      rintro _ ⟨rfl⟩
      exact ⟨_, _, rfl, .inr (.inr (.inl hopening))⟩
  | _ =>
      intro p hp
      cases hp

theorem Phrase.Opens.kind_ne_eof {p : Phrase} {t : Token} (h : p.Opens t) : t.kind ≠ .eof := by
  intro heof
  have hword : ∀ word, t.isKeyword word = false := by
    intro word
    exact Parser.isKeyword_eq_false_of_kind (by simp [heof])
  rcases h.statement with h | h | h | h
  · simp [hword] at h
  · simp [hword] at h
  · simp [Token.isSign, heof] at h
  · simp [Token.OpensAtom, Token.IsNumeral, heof, hword] at h

theorem Token.OpensAtom.isSign_eq_false {t : Token} (h : t.OpensAtom) : t.isSign = false := by
  rcases h with (h | h) | h | h | h | h | h
  case inr.inr.inr.inl | inr.inr.inr.inr.inl | inr.inr.inr.inr.inr =>
    simp [Token.isSign, (Parser.isKeyword_iff.1 h).1]
  all_goals simp [Token.isSign, h]

theorem Token.isKeyword_eq_false_of_operand {t : Token} {word : String}
    (h : t.isSign ∨ t.OpensAtom) (hword : word ∉ ["if", "switch", "while"]) :
    t.isKeyword word = false := by
  simp only [List.mem_cons, List.not_mem_nil, or_false, not_or] at hword
  -- All but the last three are no keywords at all.
  rcases h with h | (h | h) | h | h | h | h | h
  · rcases Token.isSign_iff.1 h with h | h <;>
      exact Parser.isKeyword_eq_false_of_kind (by simp [h])
  · exact Parser.isKeyword_eq_false_of_kind (by simp [h])
  · exact Parser.isKeyword_eq_false_of_kind (by simp [h])
  · exact Parser.isKeyword_eq_false_of_kind (by simp [h])
  · exact Parser.isKeyword_eq_false_of_kind (by simp [h])
  · exact Parser.isKeyword_eq_false_of_isKeyword h (Ne.symm hword.1)
  · exact Parser.isKeyword_eq_false_of_isKeyword h (Ne.symm hword.2.1)
  · exact Parser.isKeyword_eq_false_of_isKeyword h (Ne.symm hword.2.2)

/-- A keyword that no phrase begins with does not begin a phrase. -/
theorem Phrase.Opens.isKeyword_eq_false {p : Phrase} {t : Token} {word : String} (h : p.Opens t)
    (hword : word ∉ ["not", "if", "switch", "while"]) (hvar : p = .statement → word ≠ "var") :
    t.isKeyword word = false := by
  have hoperand : word ∉ ["if", "switch", "while"] := fun hmem => hword (.tail _ hmem)
  have hnot : "not" ≠ word := by
    rintro rfl
    exact hword (.head _)
  by_cases hp : p = .statement
  · subst hp
    rcases h with h | h | h
    · exact Parser.isKeyword_eq_false_of_isKeyword h (Ne.symm (hvar rfl))
    · exact Parser.isKeyword_eq_false_of_isKeyword h hnot
    · exact Token.isKeyword_eq_false_of_operand h hoperand
  · rcases h.expression hp with h | h
    · exact Parser.isKeyword_eq_false_of_isKeyword h hnot
    · exact Token.isKeyword_eq_false_of_operand h hoperand

/-! ## How a phrase ends -/

/-- The loosest operators that a phrase takes on its own. -/
def Phrase.rank : Phrase → Nat
  | .statement => Level.logic.rank
  | .chain level => level.rank
  | .negation => Level.comparison.rank
  | .factor => Level.power.rank
  | .atom | .group => 0

/-- No operator up to the rank comes next. -/
def Closed (rank : Nat) (rest : List Token) : Prop :=
  ∀ t ∈ rest.head?, ∀ level : Level, level.rank ≤ rank → level.accepts t = false

theorem Closed.mono {rank rank' : Nat} {rest : List Token} (h : Closed rank rest)
    (hle : rank' ≤ rank) : Closed rank' rest := by
  intro t ht level hlevel
  exact h t ht level (by omega)

/-- The token is no operator, and no equals sign: a statement before it comes to its end. -/
def Token.Ends (t : Token) : Prop :=
  t.kind ≠ .assign ∧ ∀ level : Level, level.accepts t = false

theorem Token.Ends.closed {t : Token} {ts : List Token} {rank : Nat} (h : t.Ends) :
    Closed rank (t :: ts) :=
  Parser.forall_mem_head?_cons fun level _ => h.2 level

theorem Token.ends_of_kind {t : Token}
    (h : t.kind ∈ [Kind.closeParen, .colon, .int, .float, .identifier, .openParen]) : t.Ends := by
  simp only [List.mem_cons, List.not_mem_nil, or_false] at h
  rcases h with h | h | h | h | h | h <;> refine ⟨by simp [h], ?_⟩ <;> intro level <;>
    cases level <;> simp [Level.accepts, Token.isKeyword, Token.is, h]

theorem Token.ends_of_isKeyword {t : Token} {word : String} (h : t.isKeyword word)
    (hand : word ≠ "and") (hor : word ≠ "or") : t.Ends := by
  have hkind := (Parser.isKeyword_iff.1 h).1
  refine ⟨by simp [hkind], ?_⟩
  intro level
  cases level with
  | logic =>
      simp [Level.accepts, Parser.isKeyword_eq_false_of_isKeyword h hand,
        Parser.isKeyword_eq_false_of_isKeyword h hor]
  | _ => simp [Level.accepts, hkind]

/-- A statement ends where another one begins, unless that begins with a sign. -/
theorem Phrase.Opens.ends {p : Phrase} {t : Token} (h : p.Opens t) (hsign : t.isSign = false) :
    t.Ends := by
  -- All that a statement can begin with, one by one; only signs are operators as well.
  rcases h.statement with h | h | h | (h | h) | h | h | h | h | h
  · exact Token.ends_of_isKeyword h (by decide) (by decide)
  · exact Token.ends_of_isKeyword h (by decide) (by decide)
  · simp [hsign] at h
  · exact Token.ends_of_kind (by simp [h])
  · exact Token.ends_of_kind (by simp [h])
  · exact Token.ends_of_kind (by simp [h])
  · exact Token.ends_of_kind (by simp [h])
  · exact Token.ends_of_isKeyword h (by decide) (by decide)
  · exact Token.ends_of_isKeyword h (by decide) (by decide)
  · exact Token.ends_of_isKeyword h (by decide) (by decide)

/-- No token is an operator of two levels. -/
theorem Level.eq_of_accepts {level other : Level} {t : Token} (h : level.accepts t)
    (h' : other.accepts t) : level = other := by
  rw [← Parser.joins_iff] at h h'
  -- The kinds of the levels are different, and only `logic` looks at literals.
  cases h with
  | logic h =>
      have hkind : t.kind = .keyword := by
        rcases h with h | h <;> exact (Parser.isKeyword_iff.1 h).1
      cases h' <;> simp_all
  | comparison h => cases h' <;> simp_all [Token.isKeyword, Token.is] <;> grind
  | sum h => cases h' <;> simp_all [Token.isKeyword, Token.is] <;> grind
  | product h => cases h' <;> simp_all [Token.isKeyword, Token.is] <;> grind
  | power h => cases h' <;> simp_all [Token.isKeyword, Token.is]

theorem Level.first_rank_lt (level : Level) : level.first.rank < level.rank := by
  cases level <;> decide

theorem Level.later_eq_first {level : Level} (h : level ≠ .power) : level.later = level.first := by
  cases level with
  | power => exact absurd rfl h
  | _ => rfl

theorem Level.first_rank_le_later (level : Level) : level.first.rank ≤ level.later.rank := by
  cases level <;> decide

theorem Level.later_rank_le (level : Level) : level.later.rank ≤ level.rank := by
  cases level <;> decide

/-- Between the operands of a level and the level itself there is no other level. -/
theorem Level.rank_le_first_of_ne {level other : Level} (h : other.rank ≤ level.rank)
    (hne : other ≠ level) : other.rank ≤ level.first.rank := by
  revert h hne
  cases level <;> cases other <;> decide

/-- Where an operand of a level ends and no operator of the level follows, the level ends. -/
theorem Closed.chain {level : Level} {rest : List Token} (h : Closed level.first.rank rest)
    (hlevel : ∀ t ∈ rest.head?, level.accepts t = false) : Closed level.rank rest := by
  intro t ht other hother
  by_cases heq : other = level
  · rw [heq]
    exact hlevel t ht
  · exact h t ht other (Level.rank_le_first_of_ne hother heq)

/-- In front of an operator of a level, the operands of the level end. -/
theorem Closed.of_joins {level : Level} {op : Token} {ts : List Token} (hop : Joins level op) :
    Closed level.first.rank (op :: ts) := by
  refine Parser.forall_mem_head?_cons ?_
  intro other hother
  refine Bool.eq_false_iff.2 fun haccepts => ?_
  -- An operator of a tighter level would be one of this level too.
  have heq : level = other := Level.eq_of_accepts (Parser.joins_iff.1 hop) haccepts
  subst heq
  exact absurd hother (Nat.not_le.2 level.first_rank_lt)

end Reckoner
