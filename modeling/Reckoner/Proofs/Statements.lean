import Reckoner.Proofs.Frame
import Reckoner.Proofs.NotStuck
import Reckoner.Proofs.Sessions

/-!
# Statements in order

A run that is not disturbed evaluates its statements one after another, up to the first that fails.
What comes of a program in two parts is what comes of the first part, and then of the second if the
first has answered. The log follows the statements: an entry for each that has a value, then one for
the fault, if there is one. No evaluation asks to exit, so the fault is always told.

* `Record.ofResults`, `Record.shift` — the entries for results, and entries further down;
* `Eval.NeverExits`, `Expr.eval_neverExits` — evaluation never asks to exit;
* `Expr.evalAll_eq_error` — where a program stops;
* `Session.execFrom_append` — a run after some statements that have values;
* `Session.exec_in_order` — runs of programs, statement by statement.
-/

namespace Reckoner

/-! ## Faults of evaluations -/

/-- The computation never stops because the program asked to exit. -/
def Eval.NeverExits {α : Type} (x : Eval α) : Prop :=
  ∀ state after fault, x state = (.error (.fault fault), after) → fault.isExit = false

namespace Eval.NeverExits

variable {α β : Type}

theorem pure (a : α) : NeverExits (Pure.pure a : Eval α) := by
  intro state after fault h
  cases h

theorem fail {cause : Cause} (hcause : cause.code ≠ .exit) (pos : Position) :
    NeverExits (Eval.fail cause pos : Eval α) := by
  intro state after fault h
  cases h
  simpa [Fault.isExit, Fault.code] using hcause

theorem look (pos : Position) : NeverExits (Eval.look pos) := by
  intro state after fault h
  unfold Eval.look at h
  split at h
  · cases h
  · next why _ =>
      cases h
      cases why <;> rfl

theorem bind {x : Eval α} {f : α → Eval β} (hx : NeverExits x) (hf : ∀ a, NeverExits (f a)) :
    NeverExits (x >>= f) := by
  intro state after fault h
  rcases hrun : x state with ⟨outcome, mid⟩
  cases outcome with
  | ok a => exact hf a mid after fault ((Eval.bind_of_ok hrun).symm.trans h)
  | error halt =>
      cases (Eval.bind_of_error hrun).symm.trans h
      exact hx state after fault hrun

theorem rounds (budget : Budget) (pos : Position) {condition : Eval Quantity} {body : Eval Value}
    (hcondition : NeverExits condition) (hbody : NeverExits body) (fuel done : Nat) (last : Value) :
    NeverExits (Eval.rounds budget pos condition body fuel done last) := by
  induction fuel generalizing done last with
  | zero =>
      intro state after fault h
      cases h
  | succ fuel ih =>
      rw [Eval.rounds_succ]
      refine bind (look pos) fun _ => bind hcondition fun q => ?_
      split
      · split
        · exact fail (by simp [Cause.code]) pos
        · exact bind hbody fun value => ih (done + 1) value
      · exact pure last

theorem closed (budget : Budget) :
    Eval.Closed budget (fun _ => True) fun x => NeverExits x where
  pure := pure
  bind := bind
  get? name state after fault h := by cases h
  set name _ q state after fault h := by cases h
  fail hcause pos := by
    refine fail ?_ pos
    cases hcause <;> simp [Cause.code]
  loop pos _ _ hcondition hbody := rounds budget pos hcondition hbody budget.fuel 0 .null

end Eval.NeverExits

/-- Evaluation never asks to exit: an exit ends the parse, before anything is evaluated. -/
theorem Expr.eval_neverExits (budget : Budget) (e : Expr) : Eval.NeverExits (e.eval budget) :=
  (Eval.NeverExits.closed budget).eval e fun _ _ => trivial

/-! ## Where a program stops -/

/-- A program that stops does so at one of its statements: those before it have values. -/
theorem Expr.evalAll_eq_error {budget : Budget} {program : Program} {state after : State}
    {halt : Halt} (h : Expr.evalAll budget program state = (.error halt, after)) :
    ∃ before e rest vs mid, program = before ++ e :: rest ∧
      Expr.evalAll budget before state = (.ok vs, mid) ∧
      e.eval budget mid = (.error halt, after) := by
  induction program generalizing state with
  | nil => cases h
  | cons e rest ih =>
      rw [Expr.evalAll] at h
      rcases hfirst : e.eval budget state with ⟨outcome, mid⟩
      cases outcome with
      | error stop =>
          cases (Eval.bind_of_error hfirst).symm.trans h
          exact ⟨[], e, rest, [], state, rfl, rfl, hfirst⟩
      | ok v =>
          rw [Eval.bind_of_ok hfirst] at h
          rcases hrest : Expr.evalAll budget rest mid with ⟨outcome, last⟩
          cases outcome with
          | ok vs => cases (Eval.bind_of_ok hrest).symm.trans h
          | error stop =>
              cases (Eval.bind_of_error hrest).symm.trans h
              rcases ih hrest with ⟨before, stopped, behind, vs, there, rfl, hbefore, hstopped⟩
              refine ⟨e :: before, stopped, behind, v :: vs, there, rfl, ?_, hstopped⟩
              rw [Expr.evalAll, Eval.bind_of_ok hfirst, Eval.bind_of_ok hbefore]
              rfl

theorem Expr.length_of_evalAll {budget : Budget} {program : Program} {state after : State}
    {vs : List Value} (h : Expr.evalAll budget program state = (.ok vs, after)) :
    vs.length = program.length := by
  induction program generalizing state vs with
  | nil =>
      cases h
      rfl
  | cons e rest ih =>
      rcases Eval.bind_eq_ok h with ⟨v, mid, -, hbind⟩
      rcases Eval.bind_eq_ok hbind with ⟨ws, last, hrest, hpure⟩
      cases hpure
      rw [List.length_cons, List.length_cons, ih hrest]

/-! ## The log -/

namespace Record

/-- The entries for statements with these results, numbered from `index` on. -/
def ofResults (index : Nat) (vs : List Value) : List Record :=
  (vs.zipIdx index).map fun (v, i) => .evaluated i v.text

/-- The entry with its statement `count` statements further down. -/
def shift (count : Nat) : Record → Record
  | evaluated statement result => evaluated (count + statement) result
  | failed stage fault => failed stage fault
  | exitCalled => exitCalled

theorem map_shift_ofHalt (count : Nat) (stage : Stage) (halt : Halt) :
    (ofHalt stage halt).map (shift count) = ofHalt stage halt := by
  cases halt with
  | fault fault =>
      simp only [ofHalt, ofFault, List.map_cons, List.map_nil]
      split <;> rfl
  | unfinished pos => rfl

end Record

/-- Results that come in front of results that come in front. -/
theorem outcome_map_append (vs ws : List Value) (outcome : Except Halt (List Value)) :
    (outcome.map (ws ++ ·)).map (vs ++ ·) = outcome.map (vs ++ ws ++ ·) := by
  cases outcome with
  | ok _ => simp [Except.map]
  | error halt => rfl

namespace Session

section Entries

variable {budget : Budget} {e : Expr} {program : Program} {state mid after : State}

/-- The entries for results, if they are logged. -/
def logged (logging : Bool) (index : Nat) (vs : List Value) : List Record :=
  if logging then Record.ofResults index vs else []

theorem logged_cons (logging : Bool) (index : Nat) (v : Value) (vs : List Value) :
    logged logging index (v :: vs) = logged logging index [v] ++ logged logging (index + 1) vs := by
  cases logging <;> rfl

/-- A statement that has a value, before others. -/
theorem execFrom_cons_of_ok {v : Value} (h : e.eval budget state = (.ok v, mid)) (logging : Bool)
    (index : Nat) (rest : Program) :
    let reply := execFrom budget logging (index + 1) rest mid
    execFrom budget logging index (e :: rest) state =
      (⟨reply.1.outcome.map ([v] ++ ·), logged logging index [v] ++ reply.1.log⟩, reply.2) := by
  rw [execFrom, h]
  cases logging <;> rfl

/-- A statement that stops: the others do not matter. -/
theorem execFrom_cons_of_error {halt : Halt} (h : e.eval budget state = (.error halt, after))
    (logging : Bool) (index : Nat) (rest : Program) :
    execFrom budget logging index (e :: rest) state =
      (⟨.error halt, Record.ofHalt .evaluation halt⟩, after) := by
  rw [execFrom, h]

/-- Statements that have values, and then others: the run of these goes on from where the first have
left the environment, and has their results and their entries in front. -/
theorem execFrom_append {vs : List Value} (h : Expr.evalAll budget program state = (.ok vs, mid))
    (logging : Bool) (index : Nat) (rest : Program) :
    let reply := execFrom budget logging (index + program.length) rest mid
    execFrom budget logging index (program ++ rest) state =
      (⟨reply.1.outcome.map (vs ++ ·), logged logging index vs ++ reply.1.log⟩, reply.2) := by
  induction program generalizing index state vs with
  | nil =>
      cases h
      have hmap (outcome : Except Halt (List Value)) : outcome.map (fun vs => vs) = outcome := by
        cases outcome <;> rfl
      have hlogged : logged logging index [] = [] := by
        cases logging <;> rfl
      simp only [hlogged, List.nil_append, List.length_nil, Nat.add_zero, hmap]
  | cons e program ih =>
      rcases Eval.bind_eq_ok h with ⟨v, there, hfirst, hbind⟩
      rcases Eval.bind_eq_ok hbind with ⟨ws, last, hrest, hpure⟩
      cases hpure
      -- The others start one number further, and so does the number of `rest`.
      have hindex : index + (e :: program).length = index + 1 + program.length := by
        simp only [List.length_cons]
        omega
      rw [List.cons_append, execFrom_cons_of_ok hfirst, ih hrest, hindex]
      dsimp only
      rw [outcome_map_append, logged_cons logging index v ws, List.append_assoc]
      rfl

/-- The entries of a run are numbered from where it starts. -/
theorem execFrom_shift (budget : Budget) (logging : Bool) (count index : Nat) (program : Program)
    (state : State) :
    let reply := execFrom budget logging index program state
    execFrom budget logging (count + index) program state =
      (⟨reply.1.outcome, reply.1.log.map (.shift count)⟩, reply.2) := by
  induction program generalizing index state with
  | nil => rfl
  | cons e rest ih =>
      rcases hfirst : e.eval budget state with ⟨outcome, mid⟩
      cases outcome with
      | error halt =>
          rw [execFrom_cons_of_error hfirst, execFrom_cons_of_error hfirst]
          simp only [Record.map_shift_ofHalt]
      | ok v =>
          rw [execFrom_cons_of_ok hfirst, execFrom_cons_of_ok hfirst, Nat.add_assoc, ih]
          simp only [List.map_append]
          cases logging <;> rfl

end Entries

/-! ## Runs -/

variable {limits : Limits} {ctx : Context} {program : Program} {s : Session} {vs : List Value}
  {mid after : State}

theorem exec_eq_execFrom (limits : Limits) (ctx : Context) (program : Program) (s : Session) :
    s.exec limits ctx program =
      ((execFrom (ctx.budget limits) limits.logging 0 program (s.begun limits ctx)).1,
        ⟨(execFrom (ctx.budget limits) limits.logging 0 program (s.begun limits ctx)).2.env⟩) :=
  rfl

/-- A run whose statements have values. -/
theorem exec_of_ok
    (h : Expr.evalAll (ctx.budget limits) program (s.begun limits ctx) = (.ok vs, after)) :
    s.exec limits ctx program = (⟨.ok vs, logged limits.logging 0 vs⟩, ⟨after.env⟩) := by
  have hrun : execFrom (ctx.budget limits) limits.logging 0 (program ++ [])
      (s.begun limits ctx) = _ := execFrom_append h limits.logging 0 []
  rw [List.append_nil] at hrun
  rw [exec_eq_execFrom, hrun]
  simp [execFrom, Except.map]

/-- A run that stops at a statement. -/
theorem exec_of_error
    (h : Expr.evalAll (ctx.budget limits) program (s.begun limits ctx) = (.ok vs, mid))
    {e : Expr} {halt : Halt} (he : e.eval (ctx.budget limits) mid = (.error halt, after))
    (rest : Program) :
    s.exec limits ctx (program ++ e :: rest) =
      (⟨.error halt, logged limits.logging 0 vs ++ Record.ofHalt .evaluation halt⟩,
        ⟨after.env⟩) := by
  rw [exec_eq_execFrom, execFrom_append h, execFrom_cons_of_error he]
  rfl

/-- A fault of a statement is told after the results of the others. -/
theorem exec_of_fault
    (h : Expr.evalAll (ctx.budget limits) program (s.begun limits ctx) = (.ok vs, mid))
    {e : Expr} {fault : Fault}
    (he : e.eval (ctx.budget limits) mid = (.error (.fault fault), after)) (rest : Program) :
    s.exec limits ctx (program ++ e :: rest) =
      (⟨.error (.fault fault), logged limits.logging 0 vs ++ [.failed .evaluation fault]⟩,
        ⟨after.env⟩) := by
  have hexit : fault.isExit = false := Expr.eval_neverExits _ e _ _ _ he
  have hentry : Record.ofHalt .evaluation (.fault fault) = [.failed .evaluation fault] := by
    simp only [Record.ofHalt, Record.ofFault, hexit, Bool.false_eq_true, if_false]
  rw [exec_of_error h he, hentry]

/-- A run without results stops at a statement, after others that have values. -/
theorem exists_of_exec_error {halt : Halt}
    (hhalt : (s.exec limits ctx program).1.outcome = .error halt) :
    ∃ before e rest vs mid after, program = before ++ e :: rest ∧
      Expr.evalAll (ctx.budget limits) before (s.begun limits ctx) = (.ok vs, mid) ∧
      e.eval (ctx.budget limits) mid = (.error halt, after) := by
  rw [(exec_eq limits ctx program s).1] at hhalt
  rcases hrun : Expr.evalAll (ctx.budget limits) program (s.begun limits ctx) with
    ⟨outcome, after⟩
  rw [hrun] at hhalt
  cases outcome with
  | ok vs => cases hhalt
  | error stop =>
      obtain rfl : stop = halt := Except.error.inj hhalt
      rcases Expr.evalAll_eq_error hrun with ⟨before, e, rest, vs, mid, hsplit, hbefore, he⟩
      exact ⟨before, e, rest, vs, mid, after, hsplit, hbefore, he⟩

/-! ## Undisturbed runs -/

namespace Undisturbed

variable {after : Environment}

/-- Statements that have values leave an environment, and their run is not called off later. -/
theorem evalAll_of_exec_ok (h : Undisturbed limits ctx)
    (hvs : (s.exec limits ctx program).1.outcome = .ok vs) :
    Expr.evalAll (ctx.budget limits) program (s.begun limits ctx) =
      (.ok vs, ⟨(s.exec limits ctx program).2.env, .never⟩) := by
  rw [h.begun_eq]
  exact h.exec_eq_ok_iff.1 ⟨hvs, rfl⟩

/-- A run that goes on after statements that have values. -/
theorem exec_append_of_ok (h : Undisturbed limits ctx)
    (hvs : Expr.evalAll (ctx.budget limits) program (s.begun limits ctx) =
      (.ok vs, ⟨after, .never⟩)) (rest : Program) :
    let reply := (⟨after⟩ : Session).exec limits ctx rest
    s.exec limits ctx (program ++ rest) =
      (⟨reply.1.outcome.map (vs ++ ·),
        logged limits.logging 0 vs ++ reply.1.log.map (.shift program.length)⟩, reply.2) := by
  rw [exec_eq_execFrom, exec_eq_execFrom, execFrom_append hvs, Nat.add_comm, execFrom_shift,
    h.begun_eq]

/-- A run is the evaluation of its statements as one sequence. -/
theorem eval_sequence (h : Undisturbed limits ctx) (program : Program) (s : Session) :
    (Expr.sequence program).eval (ctx.budget limits) ⟨s.env, .never⟩ =
      ((s.exec limits ctx program).1.outcome.map .list,
        ⟨(s.exec limits ctx program).2.env, .never⟩) := by
  rcases exec_eq limits ctx program s with ⟨houtcome, hafter⟩
  rw [houtcome, hafter, h.begun_eq, Expr.eval]
  rcases hrun : Expr.evalAll (ctx.budget limits) program ⟨s.env, .never⟩ with ⟨outcome, after⟩
  obtain ⟨last, rfl⟩ := Expr.evalAll_never hrun
  cases outcome with
  | ok vs => exact Eval.bind_of_ok hrun
  | error halt => exact Eval.bind_of_error hrun

end Undisturbed

/-- Runs that are not disturbed. A program in two parts: where the first part does not answer, both
parts together do what it does; where it answers, the second part goes on from there, its results
and its entries come after those of the first, and its statements are numbered further. A program
that answers has a result for each statement and, if results are logged, one entry for each and no
others. Where a statement fails after others that have values, there are no results: the fault is
that of the statement, the environment is the one it left, the entry for the fault comes after those
for the others, and whatever follows has no effect; and every run with a fault is one of these. The
outcome and the environment are those of the statements evaluated as one sequence. -/
theorem exec_in_order (h : Undisturbed limits ctx) (s : Session) :
    let budget : Budget := { fuel := ctx.fuel, maxRounds := limits.rounds }
    (∀ first second : Program,
        (∀ halt, (s.exec limits ctx first).1.outcome = .error halt →
          s.exec limits ctx (first ++ second) = s.exec limits ctx first) ∧
        ∀ vs, (s.exec limits ctx first).1.outcome = .ok vs →
          let reply := (s.exec limits ctx first).2.exec limits ctx second
          s.exec limits ctx (first ++ second) =
            (⟨reply.1.outcome.map (vs ++ ·),
              (s.exec limits ctx first).1.log ++ reply.1.log.map (.shift first.length)⟩,
              reply.2)) ∧
      (∀ (program : Program) (vs : List Value), (s.exec limits ctx program).1.outcome = .ok vs →
        vs.length = program.length ∧
          (s.exec limits ctx program).1.log =
            if limits.logging then Record.ofResults 0 vs else []) ∧
      (∀ (before : Program) (e : Expr) (rest : Program) (vs : List Value) (fault : Fault)
          (after : State), (s.exec limits ctx before).1.outcome = .ok vs →
        e.eval budget ⟨(s.exec limits ctx before).2.env, .never⟩ = (.error (.fault fault), after) →
        s.exec limits ctx (before ++ e :: rest) =
          (⟨.error (.fault fault),
            (s.exec limits ctx before).1.log ++ [.failed .evaluation fault]⟩, ⟨after.env⟩)) ∧
      (∀ (program : Program) (fault : Fault),
        (s.exec limits ctx program).1.outcome = .error (.fault fault) →
        ∃ before e rest vs after, program = before ++ e :: rest ∧
          (s.exec limits ctx before).1.outcome = .ok vs ∧
          e.eval budget ⟨(s.exec limits ctx before).2.env, .never⟩ =
            (.error (.fault fault), after)) ∧
      ∀ program : Program, (Expr.sequence program).eval budget ⟨s.env, .never⟩ =
        ((s.exec limits ctx program).1.outcome.map .list,
          ⟨(s.exec limits ctx program).2.env, .never⟩) := by
  intro budget
  refine ⟨fun first second => ⟨?_, ?_⟩, ?_, ?_, ?_, ?_⟩
  · intro halt hhalt
    rcases exists_of_exec_error hhalt with ⟨before, e, rest, vs, mid, after, rfl, hbefore, he⟩
    -- What follows the statement that stops is longer, and does not matter.
    rw [List.append_assoc, List.cons_append, exec_of_error hbefore he, exec_of_error hbefore he]
  · intro vs hvs
    have hfirst := h.evalAll_of_exec_ok hvs
    dsimp only
    rw [h.exec_append_of_ok hfirst, exec_of_ok hfirst]
  · intro program vs hvs
    have hrun := h.evalAll_of_exec_ok hvs
    rw [exec_of_ok hrun]
    exact ⟨Expr.length_of_evalAll hrun, rfl⟩
  · intro before e rest vs fault after hvs he
    have hbefore := h.evalAll_of_exec_ok hvs
    rw [exec_of_fault hbefore he, exec_of_ok hbefore]
  · intro program fault hfault
    rcases exists_of_exec_error hfault with ⟨before, e, rest, vs, mid, after, rfl, hbefore, he⟩
    have hvs : (s.exec limits ctx before).1.outcome = .ok vs := by rw [exec_of_ok hbefore]
    -- The statement is evaluated where those before it have left the environment.
    obtain rfl : mid = ⟨(s.exec limits ctx before).2.env, .never⟩ :=
      congrArg Prod.snd (hbefore.symm.trans (h.evalAll_of_exec_ok hvs))
    exact ⟨before, e, rest, vs, after, rfl, hvs, he⟩
  · exact fun program => h.eval_sequence program s

/-- Three statements, of which the second divides by zero: the first is logged with its result, the
fault after it, and the third binds nothing. -/
theorem exec_in_order_division :
    let first : Expr := .assign "a" ⟨1, 1⟩ (.num (.int 1) ⟨1, 5⟩)
    let second : Expr := .binary ⟨.div, "/"⟩ (.num (.int 5) ⟨2, 1⟩) (.num (.int 0) ⟨2, 5⟩)
    let third : Expr := .assign "b" ⟨3, 1⟩ (.num (.int 2) ⟨3, 5⟩)
    let s := Session.start []
    let fault : Fault := ⟨.divisionByZero, ⟨2, 5⟩⟩
    Undisturbed {} {} ∧
      (s.exec {} {} [first, second, third]).1.outcome = .error (.fault fault) ∧
      (s.exec {} {} [first, second, third]).1.log =
        [.evaluated 0 "1", .failed .evaluation fault] ∧
      (s.exec {} {} [first, second, third]).2.env.names = ["nil", "true", "false", "a"] := by
  intro first second third s fault
  have hquiet : Undisturbed {} {} := rfl
  let one : Value := .number ⟨.int 1, ⟨1, 5⟩⟩
  have hfirst : (s.exec {} {} [first]).1.outcome = .ok [one] := rfl
  rcases exec_in_order hquiet s with ⟨-, hlogged, hstopped, -, -⟩
  have hone : one.text = "1" := by decide +kernel
  have hlog : (s.exec {} {} [first]).1.log = [.evaluated 0 one.text] := (hlogged _ _ hfirst).2
  have hrun := hstopped [first] second [third] [one] fault _ hfirst rfl
  rw [hlog, hone] at hrun
  rw [show [first, second, third] = [first] ++ second :: [third] from rfl, hrun]
  exact ⟨hquiet, rfl, rfl, rfl⟩

end Session
end Reckoner
