import Reckoner.Proofs.Grammar

/-!
# What each production does

One lemma for each production of the parser says what its success consists in: which tokens it takes
and which productions it goes through. All later statements about parsing cite these lemmas and look
into no production again.

* `Yields` — a production succeeds with a value and leaves tokens over;
* `Fits` — there is room for one more level of nesting;
* `statement_cases`, `climb_cases`, `atom_cases` and their companions — the productions.
-/

namespace Reckoner

/-- One more level of nesting is within the limit; zero is no limit. -/
def Fits (limit depth : Nat) : Prop :=
  limit = 0 ∨ depth < limit

namespace Parser

variable {r : Rules} {d : Nat}

/-! ## Steps -/

/-- The production succeeds with a value and leaves tokens over. -/
def Yields {α : Type} {ts : List Token} (x : Step α ts) (v : α) (rest : List Token) : Prop :=
  ∃ h, x = .ok ⟨v, rest, h⟩

theorem Yields.shorter {α : Type} {ts rest : List Token} {x : Step α ts} {v : α}
    (h : Yields x v rest) : rest.length < ts.length :=
  h.1

@[simp] theorem yields_ok {α : Type} {ts rest : List Token} {p : Parsed α ts} {v : α} :
    Yields (.ok p : Step α ts) v rest ↔ p.value = v ∧ p.rest = rest := by
  constructor
  · rintro ⟨h, heq⟩
    rw [Except.ok.inj heq]
    exact ⟨rfl, rfl⟩
  · rintro ⟨rfl, rfl⟩
    exact ⟨p.shorter, rfl⟩

@[simp] theorem yields_pure {α : Type} {ts rest : List Token} {p : Parsed α ts} {v : α} :
    Yields (pure p : Step α ts) v rest ↔ p.value = v ∧ p.rest = rest :=
  yields_ok

@[simp] theorem not_yields_error {α : Type} {ts rest : List Token} {fault : Fault} {v : α} :
    ¬ Yields (.error fault : Step α ts) v rest := by
  rintro ⟨h, heq⟩
  cases heq

/-- A production followed by another: the first answers, and the second goes on from there. -/
theorem yields_bind {α β : Type} {ts us rest : List Token} {x : Step α ts}
    {f : Parsed α ts → Step β us} {v : β} :
    Yields (x >>= f) v rest ↔
      ∃ a mid, ∃ h : Yields x a mid, Yields (f ⟨a, mid, h.shorter⟩) v rest := by
  cases x with
  | error fault =>
      constructor
      · rintro ⟨h, heq⟩
        cases heq
      · rintro ⟨a, mid, ⟨h, heq⟩, -⟩
        cases heq
  | ok p =>
      constructor
      · intro h
        exact ⟨p.value, p.rest, ⟨p.shorter, rfl⟩, h⟩
      · rintro ⟨a, mid, ⟨h, heq⟩, hf⟩
        cases heq
        exact hf

theorem enter_of_fits {ts : List Token} (h : Fits r.limit d) : r.enter d ts = .ok (d + 1) := by
  unfold Fits at h
  rw [Rules.enter, if_neg (by omega)]

theorem exists_enter_of_not_fits (ts : List Token) (h : ¬ Fits r.limit d) :
    ∃ fault, r.enter d ts = .error fault := by
  unfold Fits at h
  exact ⟨_, by rw [Rules.enter, if_pos (by omega)]⟩

/-- Entering a level of nesting in front of a production. -/
theorem yields_enter {α : Type} {ts us rest : List Token} {f : Nat → Step α us} {v : α} :
    Yields (r.enter d ts >>= f) v rest ↔ Fits r.limit d ∧ Yields (f (d + 1)) v rest := by
  -- Beyond the limit both sides are false.
  by_cases hfits : Fits r.limit d
  · rw [enter_of_fits hfits]
    exact ⟨fun h => ⟨hfits, h⟩, fun h => h.2⟩
  · rcases exists_enter_of_not_fits ts hfits with ⟨fault, hfault⟩
    rw [hfault]
    exact ⟨fun h => absurd h not_yields_error, fun h => absurd h.1 hfits⟩

theorem yields_expect {wanted : Wanted} {ts rest : List Token} {t : Token} :
    Yields (r.expect wanted ts) t rest ↔ ts = t :: rest ∧ wanted.accepts t := by
  cases ts with
  | nil => simp [Rules.expect]
  | cons u us =>
      by_cases haccepts : wanted.accepts u = true
      · rw [Rules.expect, if_pos haccepts, yields_ok]
        constructor
        · rintro ⟨rfl, rfl⟩
          exact ⟨rfl, haccepts⟩
        · rintro ⟨heq, -⟩
          exact List.cons.inj heq
      · rw [Rules.expect, if_neg haccepts]
        constructor
        · intro h
          exact absurd h not_yields_error
        · rintro ⟨heq, haccepts'⟩
          rw [(List.cons.inj heq).1] at haccepts
          exact absurd haccepts' haccepts

theorem joins_iff {level : Level} {t : Token} : Joins level t ↔ level.accepts t := by
  constructor
  · intro h
    cases h with
    | logic h => simpa [Level.accepts] using h
    | comparison h =>
        simp only [List.mem_cons, List.not_mem_nil, or_false] at h
        rcases h with h | h | h | h | h | h <;> simp [Level.accepts, h]
    | sum h => simpa [Level.accepts, or_assoc] using h
    | product h => simpa [Level.accepts] using h
    | power h => simpa [Level.accepts] using h
  · intro h
    cases level with
    | logic => exact .logic (by simpa [Level.accepts] using h)
    | comparison =>
        refine .comparison ?_
        simp only [Level.accepts] at h
        split at h <;> simp_all
    | sum => exact .sum (by simpa [Level.accepts, or_assoc] using h)
    | product => exact .product (by simpa [Level.accepts] using h)
    | power => exact .power (by simpa [Level.accepts] using h)

theorem literal_eq_ok_iff {t : Token} {n : Number} (ht : t.IsNumeral) :
    literal t = .ok n ↔ t.Denotes n := by
  unfold literal
  -- An integer literal is tried as an integer first, and is a binary number if that fails.
  rcases ht with hint | hfloat
  · constructor
    · intro h
      simp only [hint, Number.ofText?] at h
      cases hi : readInt t.literal with
      | ok i =>
          simp only [hi] at h
          cases h
          exact .int hint hi
      | error e =>
          cases hx : readFloat t.literal with
          | ok x =>
              simp only [hi, hx] at h
              cases h
              exact .wide hint hi hx
          | error e' => simp [hi, hx] at h
    · intro h
      cases h with
      | int _ hi => simp [hint, Number.ofText?, show readInt t.literal = _ from hi]
      | wide _ hi hx =>
          simp [hint, Number.ofText?, show readInt t.literal = _ from hi,
            show readFloat t.literal = _ from hx]
      | float hkind _ => simp [hint] at hkind
  · constructor
    · intro h
      cases hx : t.float with
      | ok x =>
          simp only [hfloat, hx, Except.toOption, Option.map_some] at h
          cases h
          exact .float hfloat hx
      | error e => simp [hfloat, hx, Except.toOption] at h
    · intro h
      cases h with
      | int hkind _ => simp [hfloat] at hkind
      | wide hkind _ _ => simp [hfloat] at hkind
      | float _ hx => simp [hfloat, hx, Except.toOption]

/-! ## Statements -/

/-- What holds of a token holds of the first of the tokens that begin with it. -/
theorem forall_mem_head?_cons {P : Token → Prop} {t : Token} {ts : List Token} (h : P t) :
    ∀ u ∈ (t :: ts).head?, P u := by
  intro u hu
  have hut : t = u := by simpa using hu
  rwa [← hut]

/-- The tokens begin neither like an assignment nor like a request to exit. -/
def BeginsExpression (ts : List Token) : Prop :=
  (∀ t ∈ ts.head?, t.isKeyword "exit" = false ∧ t.isKeyword "var" = false) ∧
    ∀ t u us, ts = t :: u :: us → ¬ (t.kind = .identifier ∧ u.kind = .assign)

theorem isKeyword_iff {t : Token} {word : String} :
    t.isKeyword word ↔ t.kind = .keyword ∧ t.literal = word := by
  simp [Token.isKeyword, Token.is]

theorem isKeyword_eq_false_of_kind {t : Token} {word : String} (h : t.kind ≠ .keyword) :
    t.isKeyword word = false := by
  simp [Token.isKeyword, Token.is, h]

theorem isKeyword_eq_false_of_isKeyword {t : Token} {word other : String} (h : t.isKeyword word)
    (hne : word ≠ other) : t.isKeyword other = false := by
  simp [Token.isKeyword, Token.is, (isKeyword_iff.1 h).2, hne]

theorem statement_fits {ts rest : List Token} {e : Expr} (h : Yields (statement r d ts) e rest) :
    Fits r.limit d := by
  by_cases hfits : Fits r.limit d
  · exact hfits
  · rcases exists_enter_of_not_fits ts hfits with ⟨fault, hfault⟩
    rw [statement, hfault] at h
    exact absurd h not_yields_error

/-- A request to exit is never answered with an expression. -/
theorem not_yields_statement_exit {t : Token} {ts rest : List Token} {e : Expr}
    (ht : t.isKeyword "exit") : ¬ Yields (statement r d (t :: ts)) e rest := by
  intro h
  have hfits := statement_fits h
  rw [statement, enter_of_fits hfits] at h
  simp [ht, yields_bind] at h

theorem statement_declare {t : Token} {ts rest : List Token} {e : Expr} (hfits : Fits r.limit d)
    (ht : t.isKeyword "var") :
    Yields (statement r d (t :: ts)) e rest ↔
      ∃ name equals us value, ts = name :: equals :: us ∧ name.kind = .identifier ∧
        equals.kind = .assign ∧ e = .assign name.literal name.pos value ∧
        Yields (statement r (d + 1) us) value rest := by
  have hexit : t.isKeyword "exit" = false := isKeyword_eq_false_of_isKeyword ht (by decide)
  rw [statement, enter_of_fits hfits]
  simp only [hexit, ht, Bool.false_eq_true, if_true, if_false]
  -- Name, equals sign and value are asked for one after another.
  simp only [yields_bind, yields_expect, yields_pure, exists_prop, Wanted.accepts, beq_iff_eq]
  constructor
  · rintro ⟨name, _, ⟨rfl, hname⟩, equals, us, ⟨rfl, hequals⟩, value, _, hvalue, rfl, rfl⟩
    exact ⟨name, equals, us, value, rfl, hname, hequals, rfl, hvalue⟩
  · rintro ⟨name, equals, us, value, rfl, hname, hequals, rfl, hvalue⟩
    exact ⟨name, _, ⟨rfl, hname⟩, equals, us, ⟨rfl, hequals⟩, value, rest, hvalue, rfl, rfl⟩

theorem statement_assign {name equals : Token} {ts rest : List Token} {e : Expr}
    (hfits : Fits r.limit d) (hname : name.kind = .identifier) (hequals : equals.kind = .assign) :
    Yields (statement r d (name :: equals :: ts)) e rest ↔
      ∃ value, e = .assign name.literal name.pos value ∧
        Yields (statement r (d + 1) ts) value rest := by
  have hword : ∀ word, name.isKeyword word = false := by
    intro word
    exact isKeyword_eq_false_of_kind (by simp [hname])
  rw [statement, enter_of_fits hfits]
  simp only [hword, hname, hequals, beq_self_eq_true, Bool.and_self, Bool.false_eq_true, if_true,
    if_false, yields_bind, yields_pure, exists_prop]
  constructor
  · rintro ⟨value, _, hvalue, rfl, rfl⟩
    exact ⟨value, rfl, hvalue⟩
  · rintro ⟨value, rfl, hvalue⟩
    exact ⟨value, rest, hvalue, rfl, rfl⟩

theorem statement_expression {ts : List Token} (hfits : Fits r.limit d)
    (hbegins : BeginsExpression ts) : statement r d ts = climb r (d + 1) .logic ts := by
  rw [statement, enter_of_fits hfits]
  -- Each of the special forms is ruled out by one of the first two tokens.
  rcases hbegins with ⟨hhead, hassign⟩
  cases ts with
  | nil => rfl
  | cons t us =>
      rcases hhead t (by simp) with ⟨hexit, hvar⟩
      simp only [hexit, hvar, Bool.false_eq_true, if_false]
      cases us with
      | nil => rfl
      | cons u us =>
          have hnot := hassign t u us rfl
          have hboth : (t.kind == .identifier && u.kind == .assign) = false := by
            simpa using hnot
          simp only [hboth, Bool.false_eq_true, if_false]

/-- A statement is an assignment in one of its two forms, or an expression. -/
theorem statement_cases {ts rest : List Token} {e : Expr} (h : Yields (statement r d ts) e rest) :
    (∃ v name equals us value, ts = v :: name :: equals :: us ∧ v.isKeyword "var" ∧
      name.kind = .identifier ∧ equals.kind = .assign ∧
      e = .assign name.literal name.pos value ∧ Yields (statement r (d + 1) us) value rest) ∨
    (∃ name equals us value, ts = name :: equals :: us ∧ name.kind = .identifier ∧
      equals.kind = .assign ∧ e = .assign name.literal name.pos value ∧
      Yields (statement r (d + 1) us) value rest) ∨
    (BeginsExpression ts ∧ Yields (climb r (d + 1) .logic ts) e rest) := by
  have hfits := statement_fits h
  by_cases hbegins : BeginsExpression ts
  · rw [statement_expression hfits hbegins] at h
    exact .inr (.inr ⟨hbegins, h⟩)
  · cases ts with
    | nil => exact absurd (by simp [BeginsExpression]) hbegins
    | cons t us =>
        by_cases hexit : t.isKeyword "exit" = true
        · exact absurd h (not_yields_statement_exit hexit)
        · by_cases hvar : t.isKeyword "var" = true
          · rcases (statement_declare hfits hvar).1 h with
              ⟨name, equals, more, value, rfl, hname, hequals, he, hvalue⟩
            exact .inl ⟨t, name, equals, more, value, rfl, hvar, hname, hequals, he, hvalue⟩
          · -- Only the form `name = …` is left.
            have hform : ∃ u more, us = u :: more ∧ t.kind = .identifier ∧ u.kind = .assign := by
              refine Classical.byContradiction fun hnone => hbegins ⟨?_, ?_⟩
              · exact forall_mem_head?_cons ⟨by simpa using hexit, by simpa using hvar⟩
              · intro u w more heq hboth
                rcases List.cons.inj heq with ⟨rfl, rfl⟩
                exact hnone ⟨w, more, rfl, hboth.1, hboth.2⟩
            rcases hform with ⟨u, more, rfl, hname, hequals⟩
            rcases (statement_assign hfits hname hequals).1 h with ⟨value, he, hvalue⟩
            exact .inr (.inl ⟨t, u, more, value, rfl, hname, hequals, he, hvalue⟩)

/-! ## Chains of operators -/

/-- The production that reads a phrase. -/
def parsePhrase (r : Rules) (d : Nat) : Phrase → (ts : List Token) → Step Expr ts
  | .statement, ts => statement r d ts
  | .chain level, ts => climb r d level ts
  | .negation, ts => comparison r d ts
  | .factor, ts => factor r d ts
  | .atom, ts => atom r d ts
  | .group, ts => parens r d ts

theorem leading_eq (level : Level) (ts : List Token) :
    leading r d level ts = parsePhrase r d level.first ts := by
  cases level <;> rw [leading] <;> rfl

theorem trailing_eq (level : Level) (ts : List Token) :
    trailing r d level ts = parsePhrase r d level.later ts := by
  cases level <;> rw [trailing] <;> simp [leading_eq, Level.later, parsePhrase]

theorem climb_eq {level : Level} {ts mid : List Token} {e : Expr}
    (h : Yields (parsePhrase r d level.first ts) e mid) :
    ∃ hmid, climb r d level ts = chain r d level e mid hmid := by
  rcases h with ⟨hshorter, h⟩
  refine ⟨hshorter, ?_⟩
  rw [climb, leading_eq, h]
  rfl

theorem climb_cases {level : Level} {ts rest : List Token} {e : Expr}
    (h : Yields (climb r d level ts) e rest) :
    ∃ first mid hmid, Yields (parsePhrase r d level.first ts) first mid ∧
      Yields (@chain r d level ts first mid hmid) e rest := by
  rw [climb, leading_eq] at h
  rcases yields_bind.1 h with ⟨first, mid, hfirst, h⟩
  exact ⟨first, mid, hfirst.shorter, hfirst, h⟩

theorem chain_stop {level : Level} {before ts : List Token} {left : Expr}
    (hshorter : ts.length < before.length) (h : ∀ t ∈ ts.head?, level.accepts t = false) :
    chain r d level left ts hshorter = .ok ⟨left, ts, hshorter⟩ := by
  cases ts with
  | nil => rw [chain]
  | cons t us =>
      rw [chain, if_neg]
      simp [h t (by simp)]

theorem chain_go {level : Level} {before us mid : List Token} {op : Token} {right : Expr}
    (left : Expr) (hshorter : (op :: us).length < before.length) (hop : level.accepts op)
    (hright : Yields (parsePhrase r d level.later us) right mid) :
    ∃ hmid, chain r d level left (op :: us) hshorter =
      chain r d level (.binary op.operator left right) mid hmid := by
  rcases hright with ⟨hlength, hright⟩
  -- The operand has taken tokens, so the chain goes on with fewer of them.
  refine ⟨by simp only [List.length_cons] at hshorter; omega, ?_⟩
  rw [chain, if_pos hop, trailing_eq, hright]
  rfl

/-- A chain has come to its end, or goes on with an operator and an operand. -/
theorem chain_cases {level : Level} {before ts rest : List Token} {left e : Expr}
    {hshorter : ts.length < before.length} (h : Yields (chain r d level left ts hshorter) e rest) :
    ((∀ t ∈ ts.head?, level.accepts t = false) ∧ e = left ∧ rest = ts) ∨
    ∃ op us right mid hmid, ts = op :: us ∧ level.accepts op ∧
      Yields (parsePhrase r d level.later us) right mid ∧
      Yields (@chain r d level before (.binary op.operator left right) mid hmid) e rest := by
  cases ts with
  | nil =>
      rw [chain, yields_ok] at h
      exact .inl ⟨by simp, h.1.symm, h.2.symm⟩
  | cons op us =>
      by_cases hop : level.accepts op = true
      · rw [chain, if_pos hop, trailing_eq] at h
        rcases yields_bind.1 h with ⟨right, mid, hright, h⟩
        exact .inr ⟨op, us, right, mid, _, rfl, hop, hright, h⟩
      · rw [chain, if_neg hop, yields_ok] at h
        exact .inl ⟨by simpa using hop, h.1.symm, h.2.symm⟩

/-! ## Negations and signs -/

theorem comparison_not {op : Token} {ts rest : List Token} {e : Expr} (hop : op.isKeyword "not") :
    Yields (comparison r d (op :: ts)) e rest ↔
      Fits r.limit d ∧ ∃ operand, e = .unary op.operator operand ∧
        Yields (comparison r (d + 1) ts) operand rest := by
  rw [comparison, if_pos hop, yields_enter]
  simp only [yields_bind, yields_pure, exists_prop]
  constructor
  · rintro ⟨hfits, operand, _, hoperand, rfl, rfl⟩
    exact ⟨hfits, operand, rfl, hoperand⟩
  · rintro ⟨hfits, operand, rfl, hoperand⟩
    exact ⟨hfits, operand, rest, hoperand, rfl, rfl⟩

theorem comparison_plain {ts : List Token} (h : ∀ t ∈ ts.head?, t.isKeyword "not" = false) :
    comparison r d ts = climb r d .comparison ts := by
  cases ts with
  | nil => rw [comparison]
  | cons t us =>
      rw [comparison, if_neg]
      simp [h t (by simp)]

theorem factor_signed {op : Token} {ts rest : List Token} {e : Expr} (hop : op.isSign) :
    Yields (factor r d (op :: ts)) e rest ↔
      Fits r.limit d ∧ ∃ operand, e = .unary op.operator operand ∧
        Yields (factor r (d + 1) ts) operand rest := by
  rw [factor, if_pos hop, yields_enter]
  simp only [yields_bind, yields_pure, exists_prop]
  constructor
  · rintro ⟨hfits, operand, _, hoperand, rfl, rfl⟩
    exact ⟨hfits, operand, rfl, hoperand⟩
  · rintro ⟨hfits, operand, rfl, hoperand⟩
    exact ⟨hfits, operand, rest, hoperand, rfl, rfl⟩

theorem factor_unsigned {ts : List Token} (h : ∀ t ∈ ts.head?, t.isSign = false) :
    factor r d ts = climb r d .power ts := by
  cases ts with
  | nil => rw [factor]
  | cons t us =>
      rw [factor, if_neg]
      simp [h t (by simp)]

/-! ## Parentheses and conditions -/

theorem parens_yields_iff {ts rest : List Token} {e : Expr} :
    Yields (parens r d ts) e rest ↔
      ∃ opening closing us, ts = opening :: us ∧ opening.kind = .openParen ∧
        closing.kind = .closeParen ∧ Yields (statement r d us) e (closing :: rest) := by
  rw [parens]
  simp only [yields_bind, yields_expect, yields_pure, exists_prop, Wanted.accepts, beq_iff_eq]
  constructor
  · rintro ⟨opening, us, ⟨rfl, hopening⟩, _, _, hinner, closing, _, ⟨rfl, hclosing⟩, rfl, rfl⟩
    exact ⟨opening, closing, us, rfl, hopening, hclosing, hinner⟩
  · rintro ⟨opening, closing, us, rfl, hopening, hclosing, hinner⟩
    exact ⟨opening, us, ⟨rfl, hopening⟩, e, _, hinner, closing, rest, ⟨rfl, hclosing⟩, rfl, rfl⟩

theorem conditional_yields_iff {ts rest : List Token} {condition body : Expr} :
    Yields (conditional r d ts) (condition, body) rest ↔
      ∃ opening us, opening.isKeyword "then" ∧
        Yields (parens r d ts) condition (opening :: us) ∧
        Yields (statement r d us) body rest := by
  rw [conditional]
  simp only [yields_bind, yields_expect, yields_pure, exists_prop, Wanted.accepts, Prod.mk.injEq]
  constructor
  · rintro ⟨_, _, hcondition, opening, us, ⟨rfl, hopening⟩, _, _, hbody, ⟨rfl, rfl⟩, rfl⟩
    exact ⟨opening, us, hopening, hcondition, hbody⟩
  · rintro ⟨opening, us, hopening, hcondition, hbody⟩
    exact ⟨condition, _, hcondition, opening, us, ⟨rfl, hopening⟩, body, rest, hbody, ⟨rfl, rfl⟩,
      rfl⟩

/-! ## Arms and bodies -/

/-- The closing word of a choice or a loop, with nothing before it. -/
theorem yields_close {α : Type} {before ts rest : List Token} {word : String} {v w : α}
    (f : (p : Parsed Token ts) → p.rest.length < before.length) :
    Yields (r.expect (.keyword word) ts >>= fun close =>
        (pure ⟨v, close.rest, f close⟩ : Step α before)) w rest ↔
      ∃ t, ts = t :: rest ∧ t.isKeyword word ∧ v = w := by
  simp only [yields_bind, yields_expect, yields_pure, exists_prop, Wanted.accepts]
  constructor
  · rintro ⟨t, _, ⟨rfl, ht⟩, rfl, rfl⟩
    exact ⟨t, rfl, ht, rfl⟩
  · rintro ⟨t, rfl, ht, rfl⟩
    exact ⟨t, rest, ⟨rfl, ht⟩, rfl, rfl⟩

theorem chooseArms_elif {before ts rest : List Token} {t : Token} {arms : Arms}
    {hshorter : (t :: ts).length < before.length} (ht : t.isKeyword "elif") :
    Yields (chooseArms r d (t :: ts) hshorter) arms rest ↔
      ∃ condition body others mid hmid, arms = .arm condition body others ∧
        Yields (conditional r d ts) (condition, body) mid ∧
        Yields (@chooseArms r d before mid hmid) others rest := by
  rw [chooseArms, if_pos ht]
  constructor
  · intro h
    rcases yields_bind.1 h with ⟨case, mid, hcase, h⟩
    rcases yields_bind.1 h with ⟨others, last, hothers, h⟩
    rcases yields_pure.1 h with ⟨rfl, rfl⟩
    exact ⟨case.1, case.2, others, mid, _, rfl, hcase, hothers⟩
  · rintro ⟨condition, body, others, mid, hmid, rfl, hcase, hothers⟩
    refine yields_bind.2 ⟨(condition, body), mid, hcase, ?_⟩
    exact yields_bind.2 ⟨others, rest, hothers, yields_pure.2 ⟨rfl, rfl⟩⟩

theorem chooseArms_else {before ts rest : List Token} {t : Token} {arms : Arms}
    {hshorter : (t :: ts).length < before.length} (ht : t.isKeyword "else") :
    Yields (chooseArms r d (t :: ts) hshorter) arms rest ↔
      ∃ e closing, arms = .otherwise e ∧ closing.isKeyword "endif" ∧
        Yields (statement r d ts) e (closing :: rest) := by
  have helif : t.isKeyword "elif" = false := isKeyword_eq_false_of_isKeyword ht (by decide)
  rw [chooseArms, if_neg (by simp [helif]), if_pos ht]
  simp only [yields_bind, yields_expect, yields_pure, exists_prop, Wanted.accepts]
  constructor
  · rintro ⟨e, _, he, closing, _, ⟨rfl, hclosing⟩, rfl, rfl⟩
    exact ⟨e, closing, rfl, hclosing, he⟩
  · rintro ⟨e, closing, rfl, hclosing, he⟩
    exact ⟨e, _, he, closing, rest, ⟨rfl, hclosing⟩, rfl, rfl⟩

theorem chooseArms_end {before ts rest : List Token} {arms : Arms}
    {hshorter : ts.length < before.length}
    (h : ∀ t ∈ ts.head?, t.isKeyword "elif" = false ∧ t.isKeyword "else" = false) :
    Yields (chooseArms r d ts hshorter) arms rest ↔
      ∃ t, ts = t :: rest ∧ t.isKeyword "endif" ∧ .none = arms := by
  cases ts with
  | nil =>
      rw [chooseArms]
      exact yields_close _
  | cons t us =>
      rcases h t (by simp) with ⟨helif, helse⟩
      rw [chooseArms, if_neg (by simp [helif]), if_neg (by simp [helse])]
      exact yields_close _

/-- A choice by truth goes on with an arm, a last resort, or its end. -/
theorem chooseArms_cases {before ts rest : List Token} {arms : Arms}
    {hshorter : ts.length < before.length} (h : Yields (chooseArms r d ts hshorter) arms rest) :
    (∃ t us condition body others mid hmid, ts = t :: us ∧ t.isKeyword "elif" ∧
      arms = .arm condition body others ∧ Yields (conditional r d us) (condition, body) mid ∧
      Yields (@chooseArms r d before mid hmid) others rest) ∨
    (∃ t us e closing, ts = t :: us ∧ t.isKeyword "else" ∧ arms = .otherwise e ∧
      closing.isKeyword "endif" ∧ Yields (statement r d us) e (closing :: rest)) ∨
    ∃ t, ts = t :: rest ∧ t.isKeyword "endif" ∧ .none = arms := by
  by_cases hend : ∀ t ∈ ts.head?, t.isKeyword "elif" = false ∧ t.isKeyword "else" = false
  · exact .inr (.inr ((chooseArms_end hend).1 h))
  · cases ts with
    | nil => simp at hend
    | cons t us =>
        by_cases helif : t.isKeyword "elif" = true
        · rcases (chooseArms_elif helif).1 h with
            ⟨condition, body, others, mid, hmid, harms, hcase, hothers⟩
          exact .inl ⟨t, us, condition, body, others, mid, hmid, rfl, helif, harms, hcase, hothers⟩
        · have helse : t.isKeyword "else" = true := by simpa [helif] using hend
          rcases (chooseArms_else helse).1 h with ⟨e, closing, harms, hclosing, he⟩
          exact .inr (.inl ⟨t, us, e, closing, rfl, helse, harms, hclosing, he⟩)

theorem selectArms_case {before ts rest : List Token} {t : Token} {arms : Arms}
    {hshorter : (t :: ts).length < before.length} (ht : t.isKeyword "case") :
    Yields (selectArms r d (t :: ts) hshorter) arms rest ↔
      ∃ guard colon us body mid others hmid, arms = .arm guard body others ∧
        colon.kind = .colon ∧ Yields (statement r d ts) guard (colon :: us) ∧
        Yields (statement r d us) body mid ∧
        Yields (@selectArms r d before mid hmid) others rest := by
  rw [selectArms, if_pos ht]
  constructor
  · intro h
    -- The steps are opened one after another, and put together again in the other direction.
    rcases yields_bind.1 h with ⟨guard, _, hguard, h⟩
    rcases yields_bind.1 h with ⟨colon, us, hcolon, h⟩
    rcases yields_bind.1 h with ⟨body, mid, hbody, h⟩
    rcases yields_bind.1 h with ⟨others, last, hothers, h⟩
    rcases yields_pure.1 h with ⟨rfl, rfl⟩
    rcases yields_expect.1 hcolon with ⟨rfl, haccepts⟩
    exact ⟨guard, colon, us, body, mid, others, _, rfl, by simpa [Wanted.accepts] using haccepts,
      hguard, hbody, hothers⟩
  · rintro ⟨guard, colon, us, body, mid, others, hmid, rfl, hcolon, hguard, hbody, hothers⟩
    have hexpect : Yields (r.expect .colon (colon :: us)) colon us :=
      yields_expect.2 ⟨rfl, by simpa [Wanted.accepts] using hcolon⟩
    refine yields_bind.2 ⟨guard, _, hguard, yields_bind.2 ⟨colon, us, hexpect, ?_⟩⟩
    refine yields_bind.2 ⟨body, mid, hbody, yields_bind.2 ⟨others, rest, hothers, ?_⟩⟩
    exact yields_pure.2 ⟨rfl, rfl⟩

theorem selectArms_default {before ts rest : List Token} {t : Token} {arms : Arms}
    {hshorter : (t :: ts).length < before.length} (ht : t.isKeyword "default") :
    Yields (selectArms r d (t :: ts) hshorter) arms rest ↔
      ∃ colon us e closing, ts = colon :: us ∧ arms = .otherwise e ∧ colon.kind = .colon ∧
        closing.isKeyword "endswitch" ∧ Yields (statement r d us) e (closing :: rest) := by
  have hcase : t.isKeyword "case" = false := isKeyword_eq_false_of_isKeyword ht (by decide)
  rw [selectArms, if_neg (by simp [hcase]), if_pos ht]
  simp only [yields_bind, yields_expect, yields_pure, exists_prop, Wanted.accepts, beq_iff_eq]
  constructor
  · rintro ⟨colon, us, ⟨rfl, hcolon⟩, e, _, he, closing, _, ⟨rfl, hclosing⟩, rfl, rfl⟩
    exact ⟨colon, us, e, closing, rfl, rfl, hcolon, hclosing, he⟩
  · rintro ⟨colon, us, e, closing, rfl, rfl, hcolon, hclosing, he⟩
    exact ⟨colon, us, ⟨rfl, hcolon⟩, e, _, he, closing, rest, ⟨rfl, hclosing⟩, rfl, rfl⟩

theorem selectArms_end {before ts rest : List Token} {arms : Arms}
    {hshorter : ts.length < before.length}
    (h : ∀ t ∈ ts.head?, t.isKeyword "case" = false ∧ t.isKeyword "default" = false) :
    Yields (selectArms r d ts hshorter) arms rest ↔
      ∃ t, ts = t :: rest ∧ t.isKeyword "endswitch" ∧ .none = arms := by
  cases ts with
  | nil =>
      rw [selectArms]
      exact yields_close _
  | cons t us =>
      rcases h t (by simp) with ⟨hcase, hdefault⟩
      rw [selectArms, if_neg (by simp [hcase]), if_neg (by simp [hdefault])]
      exact yields_close _

/-- A choice by equality goes on with an arm, a last resort, or its end. -/
theorem selectArms_cases {before ts rest : List Token} {arms : Arms}
    {hshorter : ts.length < before.length} (h : Yields (selectArms r d ts hshorter) arms rest) :
    (∃ t us guard colon vs body mid others hmid, ts = t :: us ∧ t.isKeyword "case" ∧
      arms = .arm guard body others ∧ colon.kind = .colon ∧
      Yields (statement r d us) guard (colon :: vs) ∧ Yields (statement r d vs) body mid ∧
      Yields (@selectArms r d before mid hmid) others rest) ∨
    (∃ t colon us e closing, ts = t :: colon :: us ∧ t.isKeyword "default" ∧
      arms = .otherwise e ∧ colon.kind = .colon ∧ closing.isKeyword "endswitch" ∧
      Yields (statement r d us) e (closing :: rest)) ∨
    ∃ t, ts = t :: rest ∧ t.isKeyword "endswitch" ∧ .none = arms := by
  by_cases hend : ∀ t ∈ ts.head?, t.isKeyword "case" = false ∧ t.isKeyword "default" = false
  · exact .inr (.inr ((selectArms_end hend).1 h))
  · cases ts with
    | nil => simp at hend
    | cons t us =>
        by_cases hcase : t.isKeyword "case" = true
        · rcases (selectArms_case hcase).1 h with
            ⟨guard, colon, vs, body, mid, others, hmid, harms, hcolon, hguard, hbody, hothers⟩
          exact .inl ⟨t, us, guard, colon, vs, body, mid, others, hmid, rfl, hcase, harms, hcolon,
            hguard, hbody, hothers⟩
        · have hdefault : t.isKeyword "default" = true := by simpa [hcase] using hend
          rcases (selectArms_default hdefault).1 h with
            ⟨colon, vs, e, closing, rfl, harms, hcolon, hclosing, he⟩
          exact .inr (.inl ⟨t, colon, vs, e, closing, rfl, hdefault, harms, hcolon, hclosing, he⟩)

theorem loopBody_end {before ts rest : List Token} {es : List Expr}
    {hshorter : ts.length < before.length}
    (h : ∀ t ∈ ts.head?, t.isKeyword "endwhile" ∨ t.kind = .eof) :
    Yields (loopBody r d ts hshorter) es rest ↔
      ∃ t, ts = t :: rest ∧ t.isKeyword "endwhile" ∧ [] = es := by
  cases ts with
  | nil =>
      rw [loopBody]
      exact yields_close _
  | cons t us =>
      have ht := h t (by simp)
      rw [loopBody, if_pos (by simpa using ht)]
      exact yields_close _

theorem loopBody_more {before ts rest : List Token} {t : Token} {es : List Expr}
    {hshorter : (t :: ts).length < before.length} (hend : t.isKeyword "endwhile" = false)
    (heof : t.kind ≠ .eof) :
    Yields (loopBody r d (t :: ts) hshorter) es rest ↔
      ∃ first others mid hmid, es = first :: others ∧
        Yields (statement r d (t :: ts)) first mid ∧
        Yields (@loopBody r d before mid hmid) others rest := by
  rw [loopBody, if_neg (by simp [hend, heof])]
  constructor
  · intro h
    rcases yields_bind.1 h with ⟨first, mid, hfirst, h⟩
    rcases yields_bind.1 h with ⟨others, last, hothers, h⟩
    rcases yields_pure.1 h with ⟨rfl, rfl⟩
    exact ⟨first, others, mid, _, rfl, hfirst, hothers⟩
  · rintro ⟨first, others, mid, hmid, rfl, hfirst, hothers⟩
    refine yields_bind.2 ⟨first, mid, hfirst, ?_⟩
    exact yields_bind.2 ⟨others, rest, hothers, yields_pure.2 ⟨rfl, rfl⟩⟩

/-- The body of a loop has come to its end, or goes on with a statement. -/
theorem loopBody_cases {before ts rest : List Token} {es : List Expr}
    {hshorter : ts.length < before.length} (h : Yields (loopBody r d ts hshorter) es rest) :
    (∃ t, ts = t :: rest ∧ t.isKeyword "endwhile" ∧ [] = es) ∨
    ∃ first others mid hmid, es = first :: others ∧ Yields (statement r d ts) first mid ∧
      Yields (@loopBody r d before mid hmid) others rest := by
  by_cases hend : ∀ t ∈ ts.head?, t.isKeyword "endwhile" ∨ t.kind = .eof
  · exact .inl ((loopBody_end hend).1 h)
  · cases ts with
    | nil => simp at hend
    | cons t us =>
        have ht : t.isKeyword "endwhile" = false ∧ t.kind ≠ .eof := by simpa using hend
        exact .inr ((loopBody_more ht.1 ht.2).1 h)

/-! ## Atoms -/

theorem atom_number {t : Token} {ts rest : List Token} {e : Expr} (ht : t.IsNumeral) :
    Yields (atom r d (t :: ts)) e rest ↔
      rest = ts ∧ ∃ n, t.Denotes n ∧ e = .num n t.pos := by
  have hatom : atom r d (t :: ts) =
      (literal t >>= fun n => pure ⟨.num n t.pos, ts, by simp⟩) := by
    -- Both kinds of literal go the same way.
    rcases ht with hkind | hkind <;> rw [atom] <;> simp only [hkind]
  rw [hatom]
  cases hliteral : literal t with
  | error fault =>
      constructor
      · intro h
        exact absurd h not_yields_error
      · rintro ⟨-, n, hn, -⟩
        rw [(literal_eq_ok_iff ht).2 hn] at hliteral
        cases hliteral
  | ok n =>
      have hn := (literal_eq_ok_iff ht).1 hliteral
      constructor
      · intro h
        rcases yields_pure.1 h with ⟨rfl, rfl⟩
        exact ⟨rfl, n, hn, rfl⟩
      · rintro ⟨rfl, m, hm, rfl⟩
        rw [(literal_eq_ok_iff ht).2 hm] at hliteral
        cases hliteral
        exact yields_pure.2 ⟨rfl, rfl⟩

theorem atom_variable {t : Token} {ts rest : List Token} {e : Expr} (ht : t.kind = .identifier) :
    Yields (atom r d (t :: ts)) e rest ↔ rest = ts ∧ e = .var t.literal t.pos := by
  rw [atom]
  simp only [ht, yields_ok]
  exact ⟨fun h => ⟨h.2.symm, h.1.symm⟩, fun h => ⟨h.2.symm, h.1.symm⟩⟩

theorem atom_group {t : Token} {ts : List Token} (ht : t.kind = .openParen) :
    atom r d (t :: ts) = parens r d (t :: ts) := by
  rw [atom]
  simp only [ht]

theorem atom_choose {t : Token} {ts rest : List Token} {e : Expr} (ht : t.isKeyword "if") :
    Yields (atom r d (t :: ts)) e rest ↔
      ∃ condition body arms mid hmid, e = .choose t.pos (.arm condition body arms) ∧
        Yields (conditional r d ts) (condition, body) mid ∧
        Yields (@chooseArms r d ts mid hmid) arms rest := by
  rw [atom]
  simp only [(isKeyword_iff.1 ht).1, ht, if_true]
  constructor
  · intro h
    rcases yields_bind.1 h with ⟨first, mid, hfirst, h⟩
    rcases yields_bind.1 h with ⟨arms, last, harms, h⟩
    rcases yields_pure.1 h with ⟨rfl, rfl⟩
    exact ⟨first.1, first.2, arms, mid, hfirst.shorter, rfl, hfirst, harms⟩
  · rintro ⟨condition, body, arms, mid, hmid, rfl, hfirst, harms⟩
    refine yields_bind.2 ⟨(condition, body), mid, hfirst, ?_⟩
    exact yields_bind.2 ⟨arms, rest, harms, yields_pure.2 ⟨rfl, rfl⟩⟩

theorem atom_select {t : Token} {ts rest : List Token} {e : Expr} (ht : t.isKeyword "switch") :
    Yields (atom r d (t :: ts)) e rest ↔
      ∃ subject arms mid hmid, e = .select t.pos subject arms ∧
        Yields (statement r d ts) subject mid ∧
        Yields (@selectArms r d ts mid hmid) arms rest := by
  have hif : t.isKeyword "if" = false := isKeyword_eq_false_of_isKeyword ht (by decide)
  rw [atom]
  simp only [(isKeyword_iff.1 ht).1, ht, hif, Bool.false_eq_true, if_true, if_false]
  constructor
  · intro h
    rcases yields_bind.1 h with ⟨subject, mid, hsubject, h⟩
    rcases yields_bind.1 h with ⟨arms, last, harms, h⟩
    rcases yields_pure.1 h with ⟨rfl, rfl⟩
    exact ⟨subject, arms, mid, hsubject.shorter, rfl, hsubject, harms⟩
  · rintro ⟨subject, arms, mid, hmid, rfl, hsubject, harms⟩
    refine yields_bind.2 ⟨subject, mid, hsubject, ?_⟩
    exact yields_bind.2 ⟨arms, rest, harms, yields_pure.2 ⟨rfl, rfl⟩⟩

theorem atom_loop {t : Token} {ts rest : List Token} {e : Expr} (ht : t.isKeyword "while") :
    Yields (atom r d (t :: ts)) e rest ↔
      ∃ condition body opening us, ∃ hus : us.length < (opening :: us).length,
        e = .loop t.pos condition body ∧ opening.isKeyword "then" ∧
        Yields (parens r d ts) condition (opening :: us) ∧
        Yields (loopBody r d us hus) body rest := by
  have hif : t.isKeyword "if" = false := isKeyword_eq_false_of_isKeyword ht (by decide)
  have hswitch : t.isKeyword "switch" = false := isKeyword_eq_false_of_isKeyword ht (by decide)
  rw [atom]
  simp only [(isKeyword_iff.1 ht).1, ht, hif, hswitch, Bool.false_eq_true, if_true, if_false]
  constructor
  · intro h
    rcases yields_bind.1 h with ⟨condition, _, hcondition, h⟩
    rcases yields_bind.1 h with ⟨opening, us, hopening, h⟩
    rcases yields_bind.1 h with ⟨body, last, hbody, h⟩
    rcases yields_pure.1 h with ⟨rfl, rfl⟩
    rcases yields_expect.1 hopening with ⟨rfl, haccepts⟩
    exact ⟨condition, body, opening, us, hopening.shorter, rfl, haccepts, hcondition, hbody⟩
  · rintro ⟨condition, body, opening, us, hus, rfl, hopening, hcondition, hbody⟩
    have hexpect : Yields (r.expect (.keyword "then") (opening :: us)) opening us :=
      yields_expect.2 ⟨rfl, hopening⟩
    refine yields_bind.2 ⟨condition, _, hcondition, yields_bind.2 ⟨opening, us, hexpect, ?_⟩⟩
    exact yields_bind.2 ⟨body, rest, hbody, yields_pure.2 ⟨rfl, rfl⟩⟩

/-- The kinds of token that an atom begins with. -/
theorem atom_cases {ts rest : List Token} {e : Expr} (h : Yields (atom r d ts) e rest) :
    ∃ t us, ts = t :: us ∧
      (t.IsNumeral ∨ t.kind = .identifier ∨ t.kind = .openParen ∨ t.isKeyword "if" ∨
        t.isKeyword "switch" ∨ t.isKeyword "while") := by
  cases ts with
  | nil =>
      rw [atom] at h
      exact absurd h not_yields_error
  | cons t us =>
      refine ⟨t, us, rfl, Classical.byContradiction fun hnone => ?_⟩
      simp only [Token.IsNumeral, not_or, Bool.not_eq_true] at hnone
      rcases hnone with ⟨⟨hint, hfloat⟩, hname, hopen, hif, hswitch, hwhile⟩
      -- Every alternative is refused, and with them the atom.
      rw [atom] at h
      simp only [hif, hswitch, hwhile, Bool.false_eq_true, if_false] at h
      exact not_yields_error h

/-! ## Programs -/

theorem program_nil : program r [] = .ok [] := by
  rw [program]

theorem program_cons {t : Token} {ts : List Token} {es : Program} (ht : t.kind ≠ .eof) :
    program r (t :: ts) = .ok es ↔
      ∃ first others mid, es = first :: others ∧ Yields (statement r 0 (t :: ts)) first mid ∧
        program r mid = .ok others := by
  rw [program, if_neg (by simpa using ht)]
  constructor
  · intro h
    -- Programs are no steps: their end is the end of all tokens, so the binds are opened by hand.
    cases hfirst : statement r 0 (t :: ts) with
    | error fault => simp [hfirst, bind, Except.bind] at h
    | ok first =>
        cases hothers : program r first.rest with
        | error fault => simp [hfirst, hothers, bind, Except.bind] at h
        | ok others =>
            simp only [hfirst, hothers, bind, Except.bind, pure, Except.pure] at h
            cases h
            exact ⟨first.value, others, first.rest, rfl, ⟨first.shorter, rfl⟩, hothers⟩
  · rintro ⟨first, others, mid, rfl, ⟨hshorter, hfirst⟩, hothers⟩
    simp [hfirst, hothers, bind, Except.bind, pure, Except.pure]

end Parser
end Reckoner
