import Reckoner.Proofs.Parser.Productions

/-!
# Productions without their measure

A production answers with a proof that it has taken tokens, which its termination needs and nothing
else does. Without that proof productions are computations over the tokens that are left, and each
is made of a few steps: to look at the token at hand, to take it, to ask for a token, to enter a
level of nesting.

* `Plain` — computations over the tokens that are left, and their steps;
* `plain`, `plainChain`, `plainConditional` and their companions — the productions;
* `plain_statement`, `plain_atom` and their companions — what each production is made of.
-/

namespace Reckoner.Parser

/-! ## Computations over tokens -/

/-- A computation over the tokens that are left: an answer, and what is left then. -/
def Plain (α : Type) : Type :=
  Rules → List Token → Except Fault (α × List Token)

namespace Plain

instance : Monad Plain where
  pure a := fun _ ts => .ok (a, ts)
  bind x f := fun r ts =>
    match x r ts with
    | .ok (a, mid) => f a r mid
    | .error fault => .error fault

/-- The token at hand. -/
def current : Plain Token :=
  fun r ts => .ok (r.current ts, ts)

/-- Takes the token at hand. -/
def skip : Plain Unit :=
  fun _ ts => .ok ((), ts.tail)

/-- An answer or a fault that does not depend on the tokens. -/
def lift {α : Type} (x : Except Fault α) : Plain α :=
  fun _ ts => x.map (·, ts)

end Plain

/-- The answer without the proof that tokens were taken. -/
def bare {α : Type} {ts : List Token} (x : Step α ts) : Except Fault (α × List Token) :=
  x.map fun p => (p.value, p.rest)

namespace Plain

/-- Takes the token that must come next. -/
def expect (wanted : Wanted) : Plain Token :=
  fun r ts => bare (r.expect wanted ts)

/-- One level deeper, unless that is over the limit. -/
def enter (d : Nat) : Plain Nat :=
  fun r ts => (r.enter d ts).map (·, ts)

/-- The next two tokens begin an assignment. -/
def assigns : Plain Bool :=
  fun _ ts =>
    match ts with
    | name :: equals :: _ => .ok (name.kind == .identifier && equals.kind == .assign, ts)
    | _ => .ok (false, ts)

theorem bind_of_ok {α β : Type} {x : Plain α} {f : α → Plain β} {r : Rules} {ts mid : List Token}
    {a : α} (h : x r ts = .ok (a, mid)) : (x >>= f) r ts = f a r mid := by
  change (match x r ts with | .ok (a, mid) => f a r mid | .error fault => .error fault) = _
  rw [h]

theorem bind_of_error {α β : Type} {x : Plain α} {f : α → Plain β} {r : Rules} {ts : List Token}
    {fault : Fault} (h : x r ts = .error fault) : (x >>= f) r ts = .error fault := by
  change (match x r ts with | .ok (a, mid) => f a r mid | .error fault => .error fault) = _
  rw [h]

end Plain

/-! ## The productions -/

/-- The production of a phrase. -/
def plain (p : Phrase) (d : Nat) : Plain Expr :=
  fun r ts => bare (parsePhrase r d p ts)

/-- The rest of a chain behind its left part. -/
def plainChain (level : Level) (d : Nat) (left : Expr) : Plain Expr :=
  fun r ts => bare (@chain r d level (r.stop :: ts) left ts (Nat.lt_succ_self _))

def plainConditional (d : Nat) : Plain (Expr × Expr) :=
  fun r ts => bare (conditional r d ts)

def plainChooseArms (d : Nat) : Plain Arms :=
  fun r ts => bare (@chooseArms r d (r.stop :: ts) ts (Nat.lt_succ_self _))

def plainSelectArms (d : Nat) : Plain Arms :=
  fun r ts => bare (@selectArms r d (r.stop :: ts) ts (Nat.lt_succ_self _))

def plainLoopBody (d : Nat) : Plain (List Expr) :=
  fun r ts => bare (@loopBody r d (r.stop :: ts) ts (Nat.lt_succ_self _))

variable {r : Rules} {d : Nat} {ts : List Token}

theorem yields_of_bare {α : Type} {x : Step α ts} {a : α} {mid : List Token}
    (h : bare x = .ok (a, mid)) : Yields x a mid := by
  cases x with
  | error fault => cases h
  | ok p =>
      cases h
      exact ⟨p.shorter, rfl⟩

theorem bare_of_yields {α : Type} {x : Step α ts} {a : α} {mid : List Token}
    (h : Yields x a mid) : bare x = .ok (a, mid) := by
  obtain ⟨hshorter, rfl⟩ := h
  rfl

theorem plain_shorter {p : Phrase} {e : Expr} {mid : List Token}
    (h : plain p d r ts = .ok (e, mid)) : mid.length < ts.length :=
  (yields_of_bare h).shorter

/-! ## What they are made of -/

theorem bare_bind {α β : Type} {us vs : List Token} {x : Step α us} {k : Parsed α us → Step β vs}
    {y : Plain α} {f : α → Plain β} (hx : bare x = y r ts)
    (hk : ∀ p, bare (k p) = f p.value r p.rest) : bare (x >>= k) = (y >>= f) r ts := by
  cases x with
  | error fault => exact (Plain.bind_of_error hx.symm).symm
  | ok p =>
      rw [Plain.bind_of_ok hx.symm]
      exact hk p

theorem bare_lift {α β : Type} {us : List Token} {x : Except Fault α} {k : α → Step β us}
    {f : α → Plain β} (hk : ∀ a, bare (k a) = f a r ts) :
    bare (x >>= k) = (Plain.lift x >>= f) r ts := by
  cases x with
  | error fault => rfl
  | ok a => exact hk a

theorem Rules.current_nil : r.current [] = r.stop :=
  rfl

theorem Rules.current_cons (t : Token) : r.current (t :: ts) = t :=
  rfl

theorem Plain.current_bind {α : Type} (f : Token → Plain α) :
    (Plain.current >>= f) r ts = f (r.current ts) r ts :=
  rfl

theorem Plain.skip_bind {α : Type} (f : Unit → Plain α) (t : Token) :
    (Plain.skip >>= f) r (t :: ts) = f () r ts :=
  rfl

/-! The end of input is no word and no operator. -/

theorem not_isKeyword_of_eof {t : Token} (h : t.kind = .eof) (word : String) :
    ¬ t.isKeyword word := by
  rw [isKeyword_eq_false_of_kind (by simp [h])]
  exact Bool.false_ne_true

theorem not_accepts_of_eof {t : Token} (h : t.kind = .eof) (level : Level) :
    ¬ level.accepts t := by
  cases level <;> simp [Level.accepts, Token.isKeyword, Token.is, h]

section Blocks

variable (hstop : r.stop.kind = .eof)

include hstop

theorem bare_chain {level : Level} {before : List Token} (left : Expr) (ts : List Token)
    (hshorter : ts.length < before.length) :
    bare (chain r d level left ts hshorter) =
      (do
        let t ← Plain.current
        if level.accepts t then do
          Plain.skip
          let right ← plain level.later d
          plainChain level d (.binary t.operator left right)
        else pure left : Plain Expr) r ts := by
  -- `plainChain` measures its tokens by a list of its own, so the induction is over every `before`.
  induction hn : ts.length using Nat.strongRecOn generalizing left before ts with
  | ind n ih =>
      subst hn
      cases ts with
      | nil =>
          rw [chain, Plain.current_bind, Rules.current_nil, if_neg (not_accepts_of_eof hstop level)]
          rfl
      | cons t us =>
          rw [chain, Plain.current_bind, Rules.current_cons]
          by_cases h : level.accepts t
          · rw [if_pos h, if_pos h, Plain.skip_bind, trailing_eq]
            refine bare_bind rfl fun right => ?_
            have hless := Nat.lt_succ_of_lt right.shorter
            exact (ih _ hless _ _ _ rfl).trans (ih _ hless _ _ _ rfl).symm
          · rw [if_neg h, if_neg h]
            rfl

theorem bare_chooseArms {before : List Token} (ts : List Token)
    (hshorter : ts.length < before.length) :
    bare (chooseArms r d ts hshorter) =
      (do
        let t ← Plain.current
        if t.isKeyword "elif" then do
          Plain.skip
          let case ← plainConditional d
          let others ← plainChooseArms d
          pure (.arm case.1 case.2 others)
        else if t.isKeyword "else" then do
          Plain.skip
          let last ← plain .statement d
          let _ ← Plain.expect (.keyword "endif")
          pure (.otherwise last)
        else do
          let _ ← Plain.expect (.keyword "endif")
          pure .none : Plain Arms) r ts := by
  induction hn : ts.length using Nat.strongRecOn generalizing before ts with
  | ind n ih =>
      subst hn
      cases ts with
      | nil =>
          rw [chooseArms, Plain.current_bind, Rules.current_nil,
            if_neg (not_isKeyword_of_eof hstop _), if_neg (not_isKeyword_of_eof hstop _)]
          exact bare_bind rfl fun close => rfl
      | cons t us =>
          rw [chooseArms, Plain.current_bind, Rules.current_cons]
          by_cases helif : t.isKeyword "elif"
          · rw [if_pos helif, if_pos helif, Plain.skip_bind]
            refine bare_bind rfl fun case => ?_
            have hless := Nat.lt_succ_of_lt case.shorter
            refine bare_bind ?_ fun others => rfl
            exact (ih _ hless _ _ rfl).trans (ih _ hless _ _ rfl).symm
          by_cases helse : t.isKeyword "else"
          · rw [if_neg helif, if_neg helif, if_pos helse, if_pos helse, Plain.skip_bind]
            exact bare_bind rfl fun last => bare_bind rfl fun close => rfl
          · rw [if_neg helif, if_neg helif, if_neg helse, if_neg helse]
            exact bare_bind rfl fun close => rfl

theorem bare_selectArms {before : List Token} (ts : List Token)
    (hshorter : ts.length < before.length) :
    bare (selectArms r d ts hshorter) =
      (do
        let t ← Plain.current
        if t.isKeyword "case" then do
          Plain.skip
          let guard ← plain .statement d
          let _ ← Plain.expect .colon
          let body ← plain .statement d
          let others ← plainSelectArms d
          pure (.arm guard body others)
        else if t.isKeyword "default" then do
          Plain.skip
          let _ ← Plain.expect .colon
          let last ← plain .statement d
          let _ ← Plain.expect (.keyword "endswitch")
          pure (.otherwise last)
        else do
          let _ ← Plain.expect (.keyword "endswitch")
          pure .none : Plain Arms) r ts := by
  induction hn : ts.length using Nat.strongRecOn generalizing before ts with
  | ind n ih =>
      subst hn
      cases ts with
      | nil =>
          rw [selectArms, Plain.current_bind, Rules.current_nil,
            if_neg (not_isKeyword_of_eof hstop _), if_neg (not_isKeyword_of_eof hstop _)]
          exact bare_bind rfl fun close => rfl
      | cons t us =>
          rw [selectArms, Plain.current_bind, Rules.current_cons]
          by_cases hcase : t.isKeyword "case"
          · rw [if_pos hcase, if_pos hcase, Plain.skip_bind]
            refine bare_bind rfl fun guard => bare_bind rfl fun colon => ?_
            refine bare_bind rfl fun body => ?_
            have hguard := Nat.lt_succ_of_lt guard.shorter
            have hless := Nat.lt_trans (Nat.lt_trans body.shorter colon.shorter) hguard
            refine bare_bind ?_ fun others => rfl
            exact (ih _ hless _ _ rfl).trans (ih _ hless _ _ rfl).symm
          by_cases hdefault : t.isKeyword "default"
          · rw [if_neg hcase, if_neg hcase, if_pos hdefault, if_pos hdefault, Plain.skip_bind]
            refine bare_bind rfl fun colon => bare_bind rfl fun last => ?_
            exact bare_bind rfl fun close => rfl
          · rw [if_neg hcase, if_neg hcase, if_neg hdefault, if_neg hdefault]
            exact bare_bind rfl fun close => rfl

theorem bare_loopBody {before : List Token} (ts : List Token)
    (hshorter : ts.length < before.length) :
    bare (loopBody r d ts hshorter) =
      (do
        let t ← Plain.current
        if t.isKeyword "endwhile" || t.kind == .eof then do
          let _ ← Plain.expect (.keyword "endwhile")
          pure []
        else do
          let first ← plain .statement d
          let others ← plainLoopBody d
          pure (first :: others) : Plain (List Expr)) r ts := by
  induction hn : ts.length using Nat.strongRecOn generalizing before ts with
  | ind n ih =>
      subst hn
      cases ts with
      | nil =>
          have hend : (r.stop.isKeyword "endwhile" || r.stop.kind == .eof) = true := by simp [hstop]
          rw [loopBody, Plain.current_bind, Rules.current_nil, if_pos hend]
          exact bare_bind rfl fun close => rfl
      | cons t us =>
          rw [loopBody, Plain.current_bind, Rules.current_cons]
          by_cases hend : (t.isKeyword "endwhile" || t.kind == .eof) = true
          · rw [if_pos hend, if_pos hend]
            exact bare_bind rfl fun close => rfl
          · rw [if_neg hend, if_neg hend]
            refine bare_bind rfl fun first => ?_
            have hless := first.shorter
            refine bare_bind ?_ fun others => rfl
            exact (ih _ hless _ _ rfl).trans (ih _ hless _ _ rfl).symm

theorem plain_statement :
    plain .statement d r ts =
      (do
        let d ← Plain.enter d
        let t ← Plain.current
        if t.isKeyword "exit" then do
          Plain.skip
          let _ ← Plain.expect .openParen
          let _ ← Plain.expect .closeParen
          Plain.lift (.error ⟨.exit, t.pos⟩)
        else if t.isKeyword "var" then do
          Plain.skip
          let name ← Plain.expect .identifier
          let _ ← Plain.expect .equals
          let value ← plain .statement d
          pure (.assign name.literal name.pos value)
        else do
          if ← Plain.assigns then do
            Plain.skip
            Plain.skip
            let value ← plain .statement d
            pure (.assign t.literal t.pos value)
          else plain (.chain .logic) d : Plain Expr) r ts := by
  rw [plain, parsePhrase, statement]
  cases henter : r.enter d ts with
  | error fault =>
      have hplain : Plain.enter d r ts = .error fault := by simp [Plain.enter, henter, Except.map]
      exact (Plain.bind_of_error hplain).symm
  | ok n =>
      have hplain : Plain.enter d r ts = .ok (n, ts) := by simp [Plain.enter, henter, Except.map]
      rw [Plain.bind_of_ok hplain, Plain.current_bind]
      cases ts with
      | nil =>
          rw [Rules.current_nil, if_neg (not_isKeyword_of_eof hstop _),
            if_neg (not_isKeyword_of_eof hstop _)]
          rfl
      | cons t us =>
          rw [Rules.current_cons]
          by_cases hexit : t.isKeyword "exit"
          · rw [if_pos hexit, Plain.skip_bind]
            simp only [if_pos hexit]
            exact bare_bind rfl fun left => bare_bind rfl fun right => rfl
          rw [if_neg hexit]
          simp only [if_neg hexit]
          by_cases hvar : t.isKeyword "var"
          · rw [if_pos hvar, if_pos hvar, Plain.skip_bind]
            refine bare_bind rfl fun name => bare_bind rfl fun equals => ?_
            exact bare_bind rfl fun value => rfl
          rw [if_neg hvar, if_neg hvar]
          cases us with
          | nil => rfl
          | cons u us =>
              by_cases hassign : (t.kind == .identifier && u.kind == .assign) = true
              · have hassigns : Plain.assigns r (t :: u :: us) = .ok (true, t :: u :: us) := by
                  simp only [Plain.assigns, hassign]
                simp only [if_pos hassign]
                rw [Plain.bind_of_ok hassigns, if_pos rfl, Plain.skip_bind, Plain.skip_bind]
                exact bare_bind rfl fun value => rfl
              · have hassigns : Plain.assigns r (t :: u :: us) = .ok (false, t :: u :: us) := by
                  simp only [Plain.assigns, hassign]
                simp only [if_neg hassign]
                rw [Plain.bind_of_ok hassigns, if_neg (by simp)]
                rfl

theorem plain_chain (level : Level) :
    plain (.chain level) d r ts =
      (do
        let first ← plain level.first d
        plainChain level d first : Plain Expr) r ts := by
  rw [plain, parsePhrase, climb, leading_eq]
  refine bare_bind rfl fun first => ?_
  exact (bare_chain hstop _ _ _).trans (bare_chain hstop _ _ _).symm

/-- Comparisons and powers behind words or signs that each open a level of nesting. -/
def plainUnary (test : Token → Bool) (p plainer : Phrase) (d : Nat) : Plain Expr := do
  let t ← Plain.current
  if test t then do
    let d ← Plain.enter d
    Plain.skip
    let operand ← plain p d
    pure (.unary t.operator operand)
  else plain plainer d

theorem plain_negation :
    plain .negation d r ts =
      plainUnary (·.isKeyword "not") .negation (.chain .comparison) d r ts := by
  cases ts with
  | nil =>
      rw [plain, parsePhrase, comparison, plainUnary, Plain.current_bind, Rules.current_nil,
        if_neg (not_isKeyword_of_eof hstop _)]
      rfl
  | cons t us =>
      rw [plain, parsePhrase, comparison, plainUnary, Plain.current_bind, Rules.current_cons]
      by_cases hnot : t.isKeyword "not"
      · rw [if_pos hnot, if_pos hnot]
        exact bare_lift fun n => bare_bind rfl fun operand => rfl
      · rw [if_neg hnot, if_neg hnot]
        rfl

theorem plain_factor :
    plain .factor d r ts = plainUnary Token.isSign .factor (.chain .power) d r ts := by
  cases ts with
  | nil =>
      have hend : ¬ r.stop.isSign := by simp [Token.isSign, hstop]
      rw [plain, parsePhrase, factor, plainUnary, Plain.current_bind, Rules.current_nil,
        if_neg hend]
      rfl
  | cons t us =>
      rw [plain, parsePhrase, factor, plainUnary, Plain.current_bind, Rules.current_cons]
      by_cases hsign : t.isSign
      · rw [if_pos hsign, if_pos hsign]
        exact bare_lift fun n => bare_bind rfl fun operand => rfl
      · rw [if_neg hsign, if_neg hsign]
        rfl

theorem plain_atom :
    plain .atom d r ts =
      (do
        let t ← Plain.current
        if t.kind = .int ∨ t.kind = .float then do
          let n ← Plain.lift (literal t)
          Plain.skip
          pure (.num n t.pos)
        else if t.kind = .identifier then do
          Plain.skip
          pure (.var t.literal t.pos)
        else if t.kind = .openParen then plain .group d
        else if t.isKeyword "if" then do
          Plain.skip
          let first ← plainConditional d
          let others ← plainChooseArms d
          pure (.choose t.pos (.arm first.1 first.2 others))
        else if t.isKeyword "switch" then do
          Plain.skip
          let subject ← plain .statement d
          let arms ← plainSelectArms d
          pure (.select t.pos subject arms)
        else if t.isKeyword "while" then do
          Plain.skip
          let condition ← plain .group d
          let _ ← Plain.expect (.keyword "then")
          let body ← plainLoopBody d
          pure (.loop t.pos condition body)
        else Plain.lift (.error ⟨.unexpected .operand t, t.pos⟩) : Plain Expr) r ts := by
  rw [plain, parsePhrase, Plain.current_bind]
  cases ts with
  | nil =>
      rw [Rules.current_nil, if_neg (by simp [hstop]), if_neg (by simp [hstop]),
        if_neg (by simp [hstop]), if_neg (not_isKeyword_of_eof hstop _),
        if_neg (not_isKeyword_of_eof hstop _), if_neg (not_isKeyword_of_eof hstop _), atom]
      rfl
  | cons t us =>
      rw [Rules.current_cons, atom]
      -- The kinds of atom that are no keywords come first.
      by_cases hnumeral : t.kind = .int ∨ t.kind = .float
      · rw [if_pos hnumeral]
        rcases hnumeral with hkind | hkind <;> simp only [hkind] <;> exact bare_lift fun n => rfl
      rw [if_neg hnumeral]
      obtain ⟨hint, hfloat⟩ := not_or.1 hnumeral
      by_cases hname : t.kind = .identifier
      · simp only [hname, if_true]
        rfl
      by_cases hopen : t.kind = .openParen
      · simp only [hopen, if_true, reduceCtorEq, if_false]
        rfl
      rw [if_neg hname, if_neg hopen]
      simp only
      by_cases hif : t.isKeyword "if"
      · rw [if_pos hif, if_pos hif, Plain.skip_bind]
        refine bare_bind rfl fun first => bare_bind ?_ fun others => rfl
        exact (bare_chooseArms hstop _ _).trans (bare_chooseArms hstop _ _).symm
      rw [if_neg hif, if_neg hif]
      by_cases hswitch : t.isKeyword "switch"
      · rw [if_pos hswitch, if_pos hswitch, Plain.skip_bind]
        refine bare_bind rfl fun subject => bare_bind ?_ fun arms => rfl
        exact (bare_selectArms hstop _ _).trans (bare_selectArms hstop _ _).symm
      rw [if_neg hswitch, if_neg hswitch]
      by_cases hwhile : t.isKeyword "while"
      · rw [if_pos hwhile, if_pos hwhile, Plain.skip_bind]
        refine bare_bind rfl fun condition => bare_bind rfl fun opened => ?_
        refine bare_bind ?_ fun body => rfl
        exact (bare_loopBody hstop _ _).trans (bare_loopBody hstop _ _).symm
      · rw [if_neg hwhile, if_neg hwhile]
        rfl

omit hstop in
theorem plain_group :
    plain .group d r ts =
      (do
        let _ ← Plain.expect .openParen
        let inner ← plain .statement d
        let _ ← Plain.expect .closeParen
        pure inner : Plain Expr) r ts := by
  rw [plain, parsePhrase, parens]
  exact bare_bind rfl fun left => bare_bind rfl fun inner => bare_bind rfl fun right => rfl

omit hstop in
theorem plainConditional_eq :
    plainConditional d r ts =
      (do
        let condition ← plain .group d
        let _ ← Plain.expect (.keyword "then")
        let body ← plain .statement d
        pure (condition, body) : Plain (Expr × Expr)) r ts := by
  rw [plainConditional, conditional]
  exact bare_bind rfl fun condition => bare_bind rfl fun opened => bare_bind rfl fun body => rfl

/-! Programs are no steps: nothing is left over by them. -/

omit hstop in
theorem program_of_eof (hkind : (r.current ts).kind = .eof) : program r ts = .ok [] := by
  cases ts with
  | nil => exact program_nil
  | cons t us => rw [program, if_pos (by simpa [Rules.current_cons] using hkind)]

theorem program_eq (hkind : (r.current ts).kind ≠ .eof) :
    program r ts =
      (plain .statement 0 r ts).bind fun (first, mid) => (program r mid).map (first :: ·) := by
  cases ts with
  | nil => exact absurd hstop hkind
  | cons t us =>
      rw [program, if_neg (by simpa [Rules.current_cons] using hkind), plain, parsePhrase]
      cases statement r 0 (t :: us) with
      | error fault => rfl
      | ok first =>
          change _ = (program r first.rest).map (first.value :: ·)
          cases hothers : program r first.rest with
          | error fault => simp [hothers, bind, Except.bind, Except.map]
          | ok others => simp [hothers, bind, Except.bind, pure, Except.pure, Except.map]

theorem program_of_error {fault : Fault} (hkind : (r.current ts).kind ≠ .eof)
    (h : plain .statement 0 r ts = .error fault) : program r ts = .error fault := by
  rw [program_eq hstop hkind, h]
  rfl

theorem program_of_ok {first : Expr} {mid : List Token} (hkind : (r.current ts).kind ≠ .eof)
    (h : plain .statement 0 r ts = .ok (first, mid)) :
    program r ts = (program r mid).map (first :: ·) := by
  rw [program_eq hstop hkind, h]
  rfl

end Blocks

end Reckoner.Parser
