import Reckoner.Proofs.Scopes.Arena

/-!
# Sequences of operations on scopes

Whatever is asked of an arena that some operations have brought about, its answer is the one of the
environment that the same operations have brought about, and the arena stays that of the
environment.

* `Scopes.Operation`, `Scopes.Answer` — what is asked, and what comes of it;
* `Arena.step`, `Environment.step` — one operation;
* `Scopes.run` — one operation after another;
* `Arena.run_arena` — the two agree;
* `Scopes.Reached` — what operations make from the first scope.
-/

namespace Reckoner

namespace Scopes

/-- What is asked of the scopes. -/
inductive Operation where
  | push
  | pop
  | set (name : String) (q : Quantity)
  | remove (name : String)
  | get (name : String)
  | lookup (scope : Int) (name : String)
  | names

/-- What comes of an operation. -/
inductive Answer where
  | done
  | opened (scope : Int)
  | refused (e : ScopeError)
  | found (q? : Option Quantity)
  | listed (names : List String)

variable {σ τ : Type}

/-- A change that is refused or fails leaves things as they were. -/
def outcome (before : σ) : Option (Except ScopeError σ) → σ × Option Answer
  | none => (before, none)
  | some (.error e) => (before, some (.refused e))
  | some (.ok after) => (after, some .done)

/-- One operation after another, with the answers in their order. -/
def run (step : σ → Operation → σ × Option Answer) :
    σ → List Operation → σ × List (Option Answer)
  | s, [] => (s, [])
  | s, op :: rest =>
    let next := step s op
    let last := run step next.1 rest
    (last.1, next.2 :: last.2)

end Scopes

open Scopes (Operation Answer outcome run)

/-- One operation on an arena. Without an answer it has failed. -/
def Arena.step (a : Arena) : Operation → Arena × Option Answer
  | .push => (a.push, some (.opened a.push.current))
  | .pop => outcome a a.pop
  | .set name q => outcome a ((a.set name q).map .ok)
  | .remove name => outcome a (a.remove name)
  | .get name => (a, (a.lookup? a.current name).map .found)
  | .lookup scope name => (a, (a.lookup? scope name).map .found)
  | .names => (a, a.names?.map .listed)

/-- One operation on an environment. No answer is given about scopes that are not open. -/
def Environment.step (env : Environment) : Operation → Environment × Option Answer
  | .push => (env.push, some (.opened env.push.current))
  | .pop => outcome env (some env.pop)
  | .set name q => (env.set name q, some .done)
  | .remove name => outcome env (some (env.remove name))
  | .get name => (env, some (.found (env.get? name)))
  | .lookup scope name =>
    (env, if env.Live scope then some (.found (env.lookup? scope name)) else none)
  | .names => (env, some (.listed env.names))

namespace Scopes

variable {σ τ : Type} {step : σ → Operation → σ × Option Answer}

/-! ## Runs -/

theorem run_append (s : σ) (first rest : List Operation) :
    run step s (first ++ rest) =
      ((run step (run step s first).1 rest).1,
        (run step s first).2 ++ (run step (run step s first).1 rest).2) := by
  induction first generalizing s with
  | nil => rfl
  | cons op first ih => simp only [List.cons_append, run, ih]

theorem length_run_answers (s : σ) (ops : List Operation) :
    (run step s ops).2.length = ops.length := by
  induction ops generalizing s with
  | nil => rfl
  | cons op rest ih => simp only [run, List.length_cons, ih]

/-- The answer to an operation is given in the state that those before it have left. -/
theorem run_answer (s : σ) (before : List Operation) (op : Operation) (after : List Operation) :
    (run step s (before ++ op :: after)).2[before.length]? =
      some (step (run step s before).1 op).2 := by
  rw [run_append, List.getElem?_append_right (by rw [length_run_answers]), length_run_answers,
    Nat.sub_self]
  rfl

/-- What holds of one operation in another state, holds of every sequence. -/
theorem run_map {f : σ → τ} {stepOf : τ → Operation → τ × Option Answer}
    (hstep : ∀ s op, stepOf (f s) op = (f (step s op).1, (step s op).2)) (s : σ)
    (ops : List Operation) :
    run stepOf (f s) ops = (f (run step s ops).1, (run step s ops).2) := by
  induction ops generalizing s with
  | nil => rfl
  | cons op rest ih => simp only [run, hstep, ih]

theorem outcome_map (f : σ → τ) (before : σ) (change : Except ScopeError σ) :
    outcome (f before) (some (change.map f)) =
      (f (outcome before (some change)).1, (outcome before (some change)).2) := by
  cases change with
  | error e => rfl
  | ok after => rfl

end Scopes

/-! ## The arena of an environment -/

namespace Arena

theorem step_arena (env : Environment) (op : Operation) :
    env.arena.step op = ((env.step op).1.arena, (env.step op).2) := by
  cases op with
  | push =>
      rw [step, push_arena]
      rfl
  | pop => rw [step, pop_arena, Scopes.outcome_map, Environment.step]
  | set name q =>
      rw [step, set_arena]
      rfl
  | remove name => rw [step, remove_arena, Scopes.outcome_map, Environment.step]
  | get name =>
      rw [step, get?_arena]
      rfl
  | lookup scope name =>
      rw [step, Environment.step]
      by_cases hscope : env.Live scope
      · rw [lookup?_arena env hscope, if_pos hscope]
        rfl
      · rw [lookup?_of_not_live env hscope, if_neg hscope]
        rfl
  | names =>
      rw [step, names?_arena]
      rfl

theorem run_arena (env : Environment) (ops : List Operation) :
    run step env.arena ops =
      ((run Environment.step env ops).1.arena, (run Environment.step env ops).2) :=
  Scopes.run_map step_arena env ops

/-- The arena that programs start from. -/
def global : Arena :=
  (run step empty
    [.set "nil" ⟨.int 0, .nowhere⟩, .set "true" ⟨.int 1, .nowhere⟩,
      .set "false" ⟨.int 0, .nowhere⟩]).1

theorem global_arena : Environment.global.arena = global := by
  rw [global, ← empty_arena, run_arena]
  rfl

end Arena

namespace Scopes

/-- An arena and an environment that the same operations make from the first scope, without names
or with the names that programs start from. -/
inductive Reached : Arena → Environment → Prop where
  | empty : Reached .empty .empty
  | global : Reached .global .global
  | step {a : Arena} {env : Environment} (h : Reached a env) (op : Operation) :
      Reached (a.step op).1 (env.step op).1

theorem Reached.arena_eq {a : Arena} {env : Environment} (h : Reached a env) :
    a = env.arena := by
  induction h with
  | empty => exact Arena.empty_arena.symm
  | global => exact Arena.global_arena.symm
  | step _ op ih => rw [ih, Arena.step_arena]

end Scopes
end Reckoner
