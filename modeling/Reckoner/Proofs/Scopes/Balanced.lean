import Mathlib.Data.List.Infix
import Reckoner.Proofs.Scopes.Operations

/-!
# Balanced sequences of operations

A sequence that closes no more scopes than it has opened, at any of its points, leaves those that
were open before it alone. Between opening a scope and closing it again such a sequence leaves no
trace, neither in the environment nor in the arena.

* `Scopes.Balanced` — as many scopes are closed as opened, and never more;
* `Scopes.Defines` — what a name is bound to in the innermost scope that has it;
* `Environment.step_frames`, `Environment.run_frames` — the scopes that were open stay below;
* `Scopes.Reached.balanced` — opening a scope, a balanced sequence and closing the scope.
-/

namespace Reckoner

namespace Scopes

/-- How many scopes are opened. -/
def pushes (ops : List Operation) : Nat :=
  ops.countP fun | .push => true | _ => false

/-- How many scopes are closed. -/
def pops (ops : List Operation) : Nat :=
  ops.countP fun | .pop => true | _ => false

/-- No beginning of the sequence closes more scopes than it opens, and the whole as many. -/
structure Balanced (ops : List Operation) : Prop where
  never_below : ∀ before, before <+: ops → pops before ≤ pushes before
  even : pops ops = pushes ops

theorem pops_append (first rest : List Operation) :
    pops (first ++ rest) = pops first + pops rest :=
  List.countP_append

theorem pushes_append (first rest : List Operation) :
    pushes (first ++ rest) = pushes first + pushes rest :=
  List.countP_append

theorem pops_cons (op : Operation) (rest : List Operation) :
    pops (op :: rest) = pops [op] + pops rest :=
  pops_append [op] rest

theorem pushes_cons (op : Operation) (rest : List Operation) :
    pushes (op :: rest) = pushes [op] + pushes rest :=
  pushes_append [op] rest

theorem pops_eq_zero_of_push {op : Operation} (h : 0 < pushes [op]) : pops [op] = 0 := by
  cases op with
  | push => rfl
  | _ => exact absurd h (Nat.lt_irrefl 0)

/-- The name is bound to this quantity in the first of the frames that have it, or none has it. -/
def Defines (frames : List Frame) (name : String) : Option Quantity → Prop
  | some q => ∃ inside frame outside, frames = inside ++ frame :: outside ∧
      frame.get? name = some q ∧ ∀ hidden ∈ inside, hidden.get? name = none
  | none => ∀ frame ∈ frames, frame.get? name = none

theorem defines_find? (frames : List Frame) (name : String) :
    Defines frames name (Environment.find? frames name) := by
  cases hfound : Environment.find? frames name with
  | none => exact List.findSome?_eq_none_iff.1 hfound
  | some q =>
      obtain ⟨inside, frame, outside, hframes, hbound, hhidden⟩ :=
        List.findSome?_eq_some_iff.1 hfound
      exact ⟨inside, frame, outside, hframes, hbound, hhidden⟩

end Scopes

open Scopes

namespace Environment

/-! ## What stays below -/

/-- The innermost of the scopes changes, unless it is closed or another one is opened. -/
theorem step_frames {env : Environment} {op : Operation} {opened base : List Frame}
    (h : env.frames = opened ++ base) (hopen : pops [op] < opened.length) :
    ∃ next, (env.step op).1.frames = next ++ base ∧
      next.length + pops [op] = opened.length + pushes [op] ∧
      (op = .pop → (env.step op).2 = some .done) := by
  rcases env with ⟨inner, outer⟩
  rcases opened with _ | ⟨frame, opened⟩
  · exact absurd hopen (Nat.not_lt_zero _)
  obtain ⟨rfl, rfl⟩ := List.cons.inj h
  cases op with
  | push => exact ⟨[] :: inner :: opened, rfl, rfl, by simp⟩
  | pop =>
      -- At least one more scope was opened since.
      rcases opened with _ | ⟨parent, opened⟩
      · exact absurd hopen (Nat.lt_irrefl 1)
      · exact ⟨parent :: opened, rfl, rfl, fun _ => rfl⟩
  | set name q => exact ⟨inner.set name q :: opened, rfl, rfl, by simp⟩
  | remove name =>
      cases hbound : Bindings.get? inner name with
      | none =>
          exact ⟨inner :: opened, by simp [step, remove, hbound, outcome, frames], rfl, by simp⟩
      | some q =>
          exact ⟨Bindings.erase inner name :: opened,
            by simp [step, remove, hbound, outcome, frames], rfl, by simp⟩
  | get name => exact ⟨inner :: opened, rfl, rfl, by simp⟩
  | lookup scope name => exact ⟨inner :: opened, rfl, rfl, by simp⟩
  | names => exact ⟨inner :: opened, rfl, rfl, by simp⟩

theorem frames_push (env : Environment) : env.push.frames = [[]] ++ env.frames :=
  rfl

/-- A sequence that leaves at least one of the scopes opened since at each of its points. -/
def StaysAbove (opened : Nat) (ops : List Operation) : Prop :=
  ∀ before, before <+: ops → pops before < opened + pushes before

theorem StaysAbove.of_append {opened : Nat} {before after : List Operation}
    (h : StaysAbove opened (before ++ after)) : StaysAbove opened before :=
  fun part hpart => h part (hpart.trans (List.prefix_append _ _))

theorem StaysAbove.head {opened : Nat} {op : Operation} {rest : List Operation}
    (h : StaysAbove opened (op :: rest)) : pops [op] < opened := by
  have hnone := h [] List.nil_prefix
  have hone := h [op] ⟨rest, rfl⟩
  by_cases hpush : 0 < pushes [op]
  · rw [pops_eq_zero_of_push hpush]
    exact hnone
  · omega

theorem StaysAbove.tail {opened next : Nat} {op : Operation} {rest : List Operation}
    (h : StaysAbove opened (op :: rest)) (hnext : next + pops [op] = opened + pushes [op]) :
    StaysAbove next rest := by
  intro before hbefore
  have hcounted := h (op :: before) (List.cons_prefix_cons.2 ⟨rfl, hbefore⟩)
  rw [pops_cons, pushes_cons] at hcounted
  omega

/-- The scopes that were open before stay as they are below those opened since. -/
theorem run_frames {env : Environment} {ops : List Operation} {opened base : List Frame}
    (h : env.frames = opened ++ base) (habove : StaysAbove opened.length ops) :
    ∃ next, (run step env ops).1.frames = next ++ base ∧
      next.length + pops ops = opened.length + pushes ops := by
  induction ops generalizing env opened with
  | nil => exact ⟨opened, h, rfl⟩
  | cons op rest ih =>
      obtain ⟨mid, hmid, hlength, -⟩ := step_frames h habove.head
      obtain ⟨next, hnext, hcount⟩ := ih hmid (habove.tail hlength)
      refine ⟨next, hnext, ?_⟩
      rw [pops_cons, pushes_cons]
      omega

/-- No scope that was open before is closed, so none of the closings is refused. -/
theorem run_pop {env : Environment} {before after : List Operation} {opened base : List Frame}
    (h : env.frames = opened ++ base)
    (habove : StaysAbove opened.length (before ++ .pop :: after)) :
    ((run step env before).1.step .pop).2 = some .done := by
  obtain ⟨next, hnext, hcount⟩ := run_frames h habove.of_append
  have hpop := habove (before ++ [.pop]) ⟨after, by simp⟩
  rw [pops_append, pushes_append] at hpop
  have hopen : pops [.pop] < next.length := by
    have hzero : pushes [.pop] = 0 := rfl
    omega
  obtain ⟨-, -, -, hdone⟩ := step_frames hnext hopen
  exact hdone rfl

/-- Only a name looked up from a scope that is not open has no answer. -/
theorem step_answers {env : Environment} {op : Operation} (h : (env.step op).2 = none) :
    ∃ scope name, op = .lookup scope name ∧ ¬ env.Live scope := by
  cases op with
  | pop =>
      rw [step] at h
      cases hchange : env.pop <;> simp [hchange, outcome] at h
  | remove name =>
      rw [step] at h
      cases hchange : env.remove name <;> simp [hchange, outcome] at h
  | lookup scope name =>
      refine ⟨scope, name, rfl, fun hlive => ?_⟩
      rw [step, if_pos hlive] at h
      cases h
  | _ => cases h

theorem step_pop_of_frames {env last : Environment} {frame : Frame}
    (h : last.frames = frame :: env.frames) : last.step .pop = (env, some .done) := by
  rcases last with ⟨inner, outer⟩
  obtain ⟨-, rfl⟩ := List.cons.inj h
  rfl

end Environment

namespace Scopes

theorem Balanced.staysAbove {ops : List Operation} (h : Balanced ops) :
    Environment.StaysAbove [([] : Frame)].length ops := by
  intro before hbefore
  have hle := h.never_below before hbefore
  rw [List.length_singleton]
  omega

/-- An environment with a scope opened, a balanced sequence run and the scope closed is as before.
-/
theorem Balanced.run_environment {ops : List Operation} (h : Balanced ops) (env : Environment) :
    run Environment.step env (.push :: ops ++ [.pop]) =
      (env, some (.opened (env.current + 1)) ::
        (run Environment.step env.push ops).2 ++ [some .done]) := by
  obtain ⟨next, hnext, hcount⟩ := Environment.run_frames env.frames_push h.staysAbove
  obtain ⟨frame, rfl⟩ : ∃ frame, next = [frame] := by
    have heven := h.even
    exact List.length_eq_one_iff.1 (by simp only [List.length_singleton] at hcount; omega)
  have hpush : env.step .push = (env.push, some (.opened (env.current + 1))) := rfl
  have hpop := Environment.step_pop_of_frames hnext
  simp only [List.cons_append, run, run_append, hpush, hpop]

/-- An operation with its answer, asked of scopes that stand inside those of an environment. -/
structure Answered (env scopes : Environment) (op : Operation) (answer : Option Answer) : Prop where
  inside : ∃ opened, opened ≠ [] ∧ scopes.frames = opened ++ env.frames
  answers : answer = none → ∃ scope name, op = .lookup scope name ∧ ¬ scopes.Live scope
  closes : op = .pop → answer = some .done
  innermost : ∀ name, op = .get name →
    ∃ q?, answer = some (.found q?) ∧ Defines scopes.frames name q?

theorem Balanced.answered {before after : List Operation} {op : Operation}
    (h : Balanced (before ++ op :: after)) (env : Environment) :
    Answered env (run Environment.step env.push before).1 op
      ((run Environment.step env.push before).1.step op).2 where
  inside := by
    have habove := h.staysAbove
    obtain ⟨next, hnext, hcount⟩ := Environment.run_frames env.frames_push habove.of_append
    refine ⟨next, ?_, hnext⟩
    rintro rfl
    have hleast := habove before (List.prefix_append _ _)
    simp only [List.length_nil, List.length_singleton] at hcount hleast
    omega
  answers := Environment.step_answers
  closes := by
    rintro rfl
    exact Environment.run_pop env.frames_push h.staysAbove
  innermost := by
    rintro name rfl
    exact ⟨_, rfl, defines_find? _ _⟩

/-- Opening a scope, a balanced sequence of operations and closing the scope succeeds and leaves the
arena and the environment exactly as they were, whatever operations have made them. In between
nothing fails but a look-up from a scope that is not open, and a name has the quantity that it is
bound to in the innermost of the open scopes that have it. -/
theorem Reached.balanced {a : Arena} {env : Environment} (h : Reached a env)
    {ops : List Operation} (hops : Balanced ops) :
    ∃ answers,
      run Arena.step a (.push :: ops ++ [.pop]) =
          (a, some (.opened (a.current + 1)) :: answers ++ [some .done]) ∧
        run Environment.step env (.push :: ops ++ [.pop]) =
          (env, some (.opened (a.current + 1)) :: answers ++ [some .done]) ∧
        a = env.arena ∧ a.depth? = some env.depth ∧ answers.length = ops.length ∧
        ∀ before op after, ops = before ++ op :: after →
          ∃ scopes answer, (run Environment.step env (.push :: before)).1 = scopes ∧
            (run Arena.step a (.push :: before)).1 = scopes.arena ∧
            answers[before.length]? = some answer ∧ Answered env scopes op answer := by
  obtain rfl := h.arena_eq
  have hrun := hops.run_environment env
  refine ⟨(run Environment.step env.push ops).2, ?_, hrun, rfl, Arena.depth?_arena env,
    length_run_answers _ _, ?_⟩
  · rw [Arena.run_arena, hrun]
    rfl
  · rintro before op after rfl
    refine ⟨_, _, rfl, ?_, run_answer _ before op after, hops.answered env⟩
    rw [Arena.run_arena]

/-- A scope that hides a name, opened and closed around one that removes it from itself. -/
theorem Reached.balanced_hidden :
    let one : Quantity := ⟨.int 1, ⟨1, 5⟩⟩
    let two : Quantity := ⟨.int 2, ⟨2, 5⟩⟩
    let ops : List Operation :=
      [.set "x" two, .push, .get "x", .remove "x", .set "y" one, .pop, .remove "x", .get "x"]
    Reached (Arena.empty.step (.set "x" one)).1 (Environment.empty.step (.set "x" one)).1 ∧
      Balanced ops ∧
      ∃ answers,
        run Arena.step (Arena.empty.step (.set "x" one)).1 (.push :: ops ++ [.pop]) =
            ((Arena.empty.step (.set "x" one)).1,
              some (.opened 1) :: answers ++ [some .done]) ∧
          answers[7]? = some (some (.found (some one))) := by
  intro one two ops
  have hreached : Reached (Arena.empty.step (.set "x" one)).1
      (Environment.empty.step (.set "x" one)).1 := .step .empty _
  have hbalanced : Balanced ops :=
    ⟨fun before hbefore => (by decide : ∀ part ∈ ops.inits, pops part ≤ pushes part) before
      ((List.mem_inits _ _).2 hbefore), rfl⟩
  obtain ⟨answers, harena, henv, -, -, hlength, -⟩ := hreached.balanced hbalanced
  refine ⟨hreached, hbalanced, answers, harena, ?_⟩
  have hanswers := congrArg (fun result => result.2[8]?) henv
  simp only [List.cons_append, List.getElem?_cons_succ] at hanswers
  rw [List.getElem?_append_left (by rw [hlength]; decide)] at hanswers
  exact hanswers.symm

end Scopes
end Reckoner
