import Reckoner.Proofs.Parser.Following
import Reckoner.Proofs.Regular
import Reckoner.Proofs.Sessions

/-!
# Parsed programs do not get stuck

Whatever the environment, the limits and the context: a run of a parsed program answers with numbers
and nothings, or stops for one of a few causes. The branches for operators without a meaning and for
lists in place of numbers are not taken, and no number is divided by zero.

* `Session.exec_regular` — runs of programs from tokens;
* `Expr.eval_binary_eq_ok`, `Expr.eval_unary_eq_ok` — the operations that answer;
* `Program.exec_not_stuck` — runs of parsed programs.
-/

namespace Reckoner

/-! ## Runs -/

/-- A run of a program from tokens has plain results or stops regularly, and keeps origins. -/
theorem Session.exec_regular {ts : List Token} {P : Position → Prop} (hP : CoversNumerals P ts)
    {program : Program} (hparts : ∀ part ∈ Expr.partsAll program, part.IsFrom ts)
    (limits : Limits) (ctx : Context) {s : Session} (henv : s.env.Origins P) :
    (∀ vs, (s.exec limits ctx program).1.outcome = .ok vs → ∀ v ∈ vs, v.IsPlain P) ∧
      (∀ halt, (s.exec limits ctx program).1.outcome = .error halt → halt.IsRegular ts P) ∧
      (s.exec limits ctx program).2.env.Origins P := by
  obtain ⟨houtcome, hafter⟩ := exec_eq limits ctx program s
  have hplain : Branches.plain.Divides := ⟨fun _ _ _ => rfl, fun _ _ _ => rfl⟩
  let state := s.begun limits ctx
  rcases Expr.evalAll_regular hP hplain (ctx.budget limits) program hparts state state
    ⟨⟨rfl, henv⟩, rfl⟩ with ⟨hresult, ⟨-, horigins⟩, -⟩
  rw [houtcome, hafter]
  refine ⟨?_, ?_, horigins⟩
  all_goals
    change Likeness.Outcomes _ _ (Expr.evalAll (ctx.budget limits) program state).1 _ at hresult
    generalize (Expr.evalAll (ctx.budget limits) program state).1 = result at hresult ⊢
    generalize (Expr.evalAllBy .plain (ctx.budget limits) program state).1 = result' at hresult
  · intro vs hvs
    cases hresult with
    | ok h =>
        cases hvs
        exact h.2
    | error h => cases hvs
  · intro halt hhalt
    cases hresult with
    | ok h => cases hhalt
    | error h =>
        cases hhalt
        exact h.2

/-! ## Operations -/

theorem Eval.bind_eq_ok {α β : Type} {x : Eval α} {f : α → Eval β} {state after : State} {b : β}
    (h : (x >>= f) state = (.ok b, after)) :
    ∃ a mid, x state = (.ok a, mid) ∧ f a mid = (.ok b, after) := by
  rcases hrun : x state with ⟨result, mid⟩
  cases result with
  | ok a => exact ⟨a, mid, rfl, (Eval.bind_of_ok hrun).symm.trans h⟩
  | error halt => cases (Eval.bind_of_error hrun).symm.trans h

theorem Eval.number_eq_ok {role : Role} {e : Expr} {v : Value} {q : Quantity}
    {state after : State} (h : Eval.number role e v state = (.ok q, after)) :
    v = .number q ∧ state = after := by
  cases v with
  | number q => cases h; exact ⟨rfl, rfl⟩
  | null => cases h
  | list items => cases h

/-- A binary operation that answers: its left operand is a number, and it has no value when the
right operand has none, or the one its operator gives to two numbers. -/
theorem Expr.eval_binary_eq_ok {budget : Budget} {op : Operator} {left right : Expr}
    {state after : State} {v : Value}
    (h : (Expr.binary op left right).eval budget state = (.ok v, after)) :
    ∃ a mid w, left.eval budget state = (.ok (.number a), mid) ∧
      right.eval budget mid = (.ok w, after) ∧
      ((w = .null ∧ v = .null) ∨ ∃ b, w = .number b ∧ op.apply a.number b.number = .ok v) := by
  rw [Expr.eval] at h
  rcases Eval.bind_eq_ok h with ⟨u, mid, hleft, h⟩
  rcases Eval.bind_eq_ok h with ⟨a, mid', hnumber, h⟩
  rcases Eval.number_eq_ok hnumber with ⟨rfl, rfl⟩
  rcases Eval.bind_eq_ok h with ⟨w, last, hright, h⟩
  refine ⟨a, mid, w, hleft, ?_⟩
  cases w with
  | null =>
      cases h
      exact ⟨hright, .inl ⟨rfl, rfl⟩⟩
  | number b =>
      dsimp only at h
      cases happly : op.apply a.number b.number with
      | ok v =>
          rw [happly] at h
          cases h
          exact ⟨hright, .inr ⟨b, rfl, happly⟩⟩
      | error cause =>
          rw [happly] at h
          cases h
  | list items => cases h

theorem Expr.eval_unary_eq_ok {budget : Budget} {op : Operator} {operand : Expr}
    {state after : State} {v : Value}
    (h : (Expr.unary op operand).eval budget state = (.ok v, after)) :
    ∃ q, operand.eval budget state = (.ok (.number q), after) ∧ v = op.applyUnary q := by
  rw [Expr.eval] at h
  rcases Eval.bind_eq_ok h with ⟨u, mid, hoperand, h⟩
  rcases Eval.bind_eq_ok h with ⟨q, mid', hnumber, h⟩
  rcases Eval.number_eq_ok hnumber with ⟨rfl, rfl⟩
  cases h
  exact ⟨q, hoperand, rfl⟩

/-! ## Parsed programs -/

/-- Runs of a parsed program, whatever the environment, the limits and the context. A run that
answers has numbers and nothings for results, and one that stops does so for one of the remaining
causes. Evaluation with branches is evaluation when they are the plain ones, and for the program
other branches would make no difference: neither operators without a meaning nor lists in place of
numbers are met, and no quotient or remainder of a division by zero is taken. Wherever it stands in
the program, a binary operation that answers has no value exactly when its right operand has none,
and a unary one always has a value. -/
theorem Program.exec_not_stuck {depth : Nat} {source : List Char} {program : Program}
    (h : Program.ofSource depth source = .ok program) :
    (∀ (limits : Limits) (ctx : Context) (s : Session) (vs : List Value),
        (s.exec limits ctx program).1.outcome = .ok vs →
          ∀ v ∈ vs, v = .null ∨ ∃ q, v = .number q) ∧
      (∀ (limits : Limits) (ctx : Context) (s : Session) (f : Fault),
        (s.exec limits ctx program).1.outcome = .error (.fault f) → f.cause.OfEvaluation) ∧
      (∀ budget es, Expr.evalAllBy .plain budget es = Expr.evalAll budget es) ∧
      (∀ branches : Branches, branches.Divides → ∀ budget state,
        Expr.evalAllBy branches budget program state = Expr.evalAll budget program state) ∧
      (∀ op left right, .binary op left right ∈ Expr.partsAll program → ∀ budget state v after,
        (Expr.binary op left right).eval budget state = (.ok v, after) →
          ∃ a mid w, left.eval budget state = (.ok (.number a), mid) ∧
            right.eval budget mid = (.ok w, after) ∧ (v = .null ↔ w = .null)) ∧
      ∀ op operand, .unary op operand ∈ Expr.partsAll program → ∀ budget state v after,
        (Expr.unary op operand).eval budget state = (.ok v, after) → v ≠ .null := by
  rcases Program.isFrom h with ⟨tokens, -, hparts⟩
  -- Nothing is asked of where numbers come from.
  have hP : CoversNumerals (fun _ => True) tokens := ⟨trivial, fun _ _ _ => trivial⟩
  have henv (env : Environment) : env.Origins fun _ => True := fun _ _ _ _ => trivial
  refine ⟨?_, ?_, Expr.evalAllWith_plain, ?_, ?_, ?_⟩
  · intro limits ctx s vs hvs v hv
    have hplain := (Session.exec_regular hP hparts limits ctx (henv s.env)).1 vs hvs v hv
    cases v with
    | null => exact .inl rfl
    | number q => exact .inr ⟨q, rfl⟩
    | list items => exact hplain.elim
  · intro limits ctx s f hf
    exact ((Session.exec_regular hP hparts limits ctx (henv s.env)).2.1 _ hf).1
  · intro branches hdivides budget state
    rcases Expr.evalAll_regular hP hdivides budget program hparts state state
      ⟨⟨rfl, henv state.env⟩, rfl⟩ with ⟨hresult, ⟨hafter, -⟩, hexpiry⟩
    refine Prod.ext ?_ (State.ext hafter.symm hexpiry.symm)
    generalize (Expr.evalAll budget program state).1 = result at hresult ⊢
    generalize (Expr.evalAllBy branches budget program state).1 = result' at hresult ⊢
    cases hresult with
    | ok h => rw [h.1]
    | error h => rw [h.1]
  · intro op left right hpart budget state v after hrun
    have hop : op.IsBinary := hparts _ hpart
    rcases Expr.eval_binary_eq_ok hrun with ⟨a, mid, w, hleft, hright, hvalue⟩
    refine ⟨a, mid, w, hleft, hright, ?_⟩
    rcases hvalue with ⟨rfl, rfl⟩ | ⟨b, rfl, hv⟩
    · simp
    · -- Two numbers never make nothing.
      have hplain : Branches.plain.Divides := ⟨fun _ _ _ => rfl, fun _ _ _ => rfl⟩
      rcases (hop.apply_cases hplain a.number b.number).2 with ⟨n, hn⟩ | hzero
      · rw [hn] at hv
        cases hv
        simp [Value.ofNumber]
      · rw [hzero] at hv
        cases hv
  · intro op operand hpart budget state v after hrun
    have hop : op.IsUnary := hparts _ hpart
    rcases Expr.eval_unary_eq_ok hrun with ⟨q, -, rfl⟩
    rcases (hop.applyUnary_cases .plain q).2 with hkept | ⟨n, hn⟩
    · simp [hkept]
    · simp [hn, Value.ofNumber]

/-- The opposite of one, divided by zero: the run stops for a cause that remains, and what a
division by zero would give makes no difference to it. -/
theorem Program.exec_not_stuck_division :
    let one : Expr := .unary ⟨.minus, "-"⟩ (.num (.int 1) ⟨1, 2⟩)
    let program : Program := [.binary ⟨.div, "/"⟩ one (.num (.int 0) ⟨1, 4⟩)]
    Program.ofSource 512 ['-', '1', '/', '0'] = .ok program ∧
      ((Session.start []).exec {} {} program).1.outcome =
        .error (.fault ⟨.divisionByZero, ⟨1, 4⟩⟩) ∧
      Cause.divisionByZero.OfEvaluation ∧
      (∀ branches : Branches, branches.Divides → ∀ budget state,
        Expr.evalAllBy branches budget program state = Expr.evalAll budget program state) ∧
      ∀ budget state v after, one.eval budget state = (.ok v, after) → v ≠ .null := by
  intro one program
  have hsplits : Splits ['-', '1', '/', '0'] [.lexeme ['-'] .minus "-", .lexeme ['1'] .int "1",
      .lexeme ['/'] .div "/", .lexeme ['0'] .int "0"] [] := by
    refine .lexeme (.operator (by decide)) (longest_operator (by decide)) ?_
    refine .digit (by decide) (headFails_cons.2 (by decide)) ?_
    refine .lexeme (.operator (by decide)) (longest_operator (by decide)) ?_
    exact .digit (by decide) (headFails_nil _) .done
  have hparse : Program.ofSource 512 ['-', '1', '/', '0'] = .ok program := by
    rw [Program.ofSource, Token.scan_of_splits hsplits]
    exact Program.ofTokens_of_walk rfl
  have houtcome : ((Session.start []).exec {} {} program).1.outcome =
      .error (.fault ⟨.divisionByZero, ⟨1, 4⟩⟩) := rfl
  rcases Program.exec_not_stuck hparse with ⟨-, hcauses, -, hbranches, -, hunary⟩
  refine ⟨hparse, houtcome, hcauses {} {} _ _ houtcome, hbranches, ?_⟩
  exact hunary _ _ (by simp [program, one, Expr.partsAll, Expr.parts])

end Reckoner
