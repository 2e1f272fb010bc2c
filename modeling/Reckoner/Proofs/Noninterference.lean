import Reckoner.Proofs.Finishing

/-!
# What an expression does not read

An expression that reads no name on which two environments differ cannot tell them apart: it has the
same value or the same fault in both, and wherever they agreed before they agree afterwards.

* `Environment.get?_set` — a name after one was bound;
* `agreeing` — the likeness of environments that agree on some names;
* `Expr.eval_agreeing` — evaluation keeps it;
* `Expr.ends_iff_of_agree` — two runs in environments that agree on what is read.
-/

namespace Reckoner

/-! ## Bound names -/

theorem Environment.get?_set (env : Environment) (name : String) (q : Quantity) (other : String) :
    (env.set name q).get? other = if name = other then some q else env.get? other := by
  -- Only the innermost scope changes, and it is looked through first.
  simp only [Environment.get?, Environment.find?, Environment.frames, Environment.set,
    List.findSome?_cons, Bindings.get?_set]
  by_cases hname : name = other
  · simp [hname]
  · simp [hname]

/-- A bound variable is what it is bound to. -/
theorem Expr.eval_var_of_get? {state : State} {name : String} {q : Quantity}
    (h : state.env.get? name = some q) (budget : Budget) (pos : Position) :
    (Expr.var name pos).eval budget state = (.ok (.number q), state) := by
  have hget : Eval.get? name state = (.ok (some q), state) := by
    rw [Eval.get?, h]
  rw [Expr.eval, Eval.bind_of_ok hget]
  rfl

/-! ## Agreement -/

/-- Environments that agree on the names `known`, and the same reasons to stop. -/
def agreeing (known : String → Prop) : Likeness where
  envs env env' := ∀ name, known name → env.get? name = env'.get? name
  halts := Eq

theorem Alike.bind_eq {l : Likeness} {α β : Type} {x y : Eval α} {f g : α → Eval β}
    (hx : Alike l Eq x y) (hf : ∀ a, Alike l Eq (f a) (g a)) :
    Alike l Eq (x >>= f) (y >>= g) := by
  refine .bind hx ?_
  intro a b hab
  subst hab
  exact hf a

/-- Loops that are alike and have the same answers, where every reason to stop is like itself. -/
theorem Alike.rounds_eq {l : Likeness} (hhalts : ∀ halt, l.halts halt halt) (budget : Budget)
    (pos : Position) {condition condition' : Eval Quantity} {body body' : Eval Value}
    (hcondition : Alike l Eq condition condition') (hbody : Alike l Eq body body') :
    Alike l Eq (Eval.rounds budget pos condition body budget.fuel 0 .null)
      (Eval.rounds budget pos condition' body' budget.fuel 0 .null) := by
  refine .rounds (fun _ => hhalts _) (fun _ => hhalts _) (hhalts _) (hcondition.mono ?_) hbody _ 0
    rfl
  intro q q' hq
  exact congrArg Quantity.isTrue hq

/-- Evaluation keeps a likeness of environments, with the same reasons to stop, if look-ups of names
that are `known` do and bindings do. -/
theorem Alike.related_eq {l : Likeness} (hhalts : ∀ halt, l.halts halt halt) (budget : Budget)
    {known : String → Prop}
    (hget : ∀ name, known name → ∀ env env', l.envs env env' → env.get? name = env'.get? name)
    (hset : ∀ name q env env', l.envs env env' → l.envs (env.set name q) (env'.set name q)) :
    Operations.Related (.plain budget) (.plain budget) known (fun _ => True)
      fun x y => Alike l Eq x y where
  plain := Operations.isPlain_plain budget
  plain' := Operations.isPlain_plain budget
  pure _ := .pure rfl
  bind := .bind_eq
  get? name hname := .get? (hget name hname)
  set name _ q := .set (hset name q)
  fail _ _ := .fail (hhalts _)
  loop pos _ _ _ _ hcondition hbody := .rounds_eq hhalts budget pos hcondition hbody

theorem agreeing_related (budget : Budget) (known : String → Prop) :
    Operations.Related (.plain budget) (.plain budget) known (fun _ => True)
      fun x y => Alike (agreeing known) Eq x y := by
  refine Alike.related_eq (fun _ => rfl) budget (fun name hname _ _ henv => henv name hname) ?_
  intro name q env env' henv other hother
  rw [Environment.get?_set, Environment.get?_set, henv other hother]

/-- In states that agree on the names `known`, which are all that the expression reads, its outcomes
are the same, and the states agree on these names afterwards. -/
theorem Expr.eval_agreeing {e : Expr} {known : String → Prop} {state state' : State}
    (hknown : ∀ name ∈ e.accessed, known name) (hstate : (agreeing known).States state state')
    (budget : Budget) :
    (e.eval budget state).1 = (e.eval budget state').1 ∧
      (agreeing known).States (e.eval budget state).2 (e.eval budget state').2 := by
  rcases (agreeing_related budget known).eval e hknown (fun _ _ => trivial) state state' hstate
    with ⟨houtcomes, hafter⟩
  exact ⟨houtcomes.eq fun _ _ hhalts => hhalts, hafter⟩

/-! ## Runs to the end -/

theorem Expr.Ends.of_agree {limit : Int} {e : Expr} {env env' after : Environment}
    {outcome : Except Fault Value} (h : e.Ends limit env outcome after)
    (hread : ∀ name ∈ e.accessed, env.get? name = env'.get? name) :
    ∃ after', e.Ends limit env' outcome after' ∧
      ∀ name, env.get? name = env'.get? name → after.get? name = after'.get? name := by
  rcases h with ⟨fuel, hrun⟩
  let budget : Budget := { fuel, maxRounds := limit.toNat }
  -- The names on which the environments agree contain all that is read.
  have hstates : (agreeing fun name => env.get? name = env'.get? name).States
      ⟨env, .never⟩ ⟨env', .never⟩ := ⟨fun _ h => h, rfl⟩
  rcases Expr.eval_agreeing hread hstates budget with ⟨houtcome, hafter⟩
  rcases hrun' : e.eval budget ⟨env', .never⟩ with ⟨outcome', state⟩
  obtain ⟨after', rfl⟩ := Expr.eval_never hrun'
  rw [hrun, hrun'] at houtcome hafter
  obtain rfl : _ = outcome' := houtcome
  exact ⟨after', ⟨fuel, hrun'⟩, hafter.envs⟩

/-- Two environments agree on every name that an expression reads. Then it ends with an outcome in
one of them when it does in the other; whenever it ends in both, the outcomes are the same, and the
environments agree on every name on which they agreed before. -/
theorem Expr.ends_iff_of_agree (limit : Int) (e : Expr) (env env' : Environment)
    (hread : ∀ name ∈ e.accessed, env.get? name = env'.get? name) :
    (∀ outcome, (∃ after, e.Ends limit env outcome after) ↔
        ∃ after', e.Ends limit env' outcome after') ∧
      ∀ outcome outcome' after after', e.Ends limit env outcome after →
        e.Ends limit env' outcome' after' →
        outcome = outcome' ∧
          ∀ name, env.get? name = env'.get? name → after.get? name = after'.get? name := by
  constructor
  · intro outcome
    constructor
    · rintro ⟨after, h⟩
      exact (h.of_agree hread).imp fun _ h => h.1
    · rintro ⟨after', h⟩
      exact (h.of_agree fun name hname => (hread name hname).symm).imp fun _ h => h.1
  · intro outcome outcome' after after' h h'
    rcases h.of_agree hread with ⟨last, hlast, hagree⟩
    rcases hlast.unique h' with ⟨rfl, rfl⟩
    exact ⟨rfl, hagree⟩

/-- Counting `x` down from two reads `x` only, so it ends the same whether or not `y` is bound. -/
theorem Expr.ends_iff_of_agree_countdown :
    let e : Expr := .loop ⟨1, 5⟩ (.var "x" ⟨1, 8⟩)
      [.assign "x" ⟨1, 15⟩ (.binary ⟨.minus, "-"⟩ (.var "x" ⟨1, 17⟩) (.num (.int 1) ⟨1, 19⟩))]
    let env := Environment.global.set "x" ⟨.int 2, .nowhere⟩
    let env' := env.set "y" ⟨.int 7, .nowhere⟩
    let zero : Quantity := ⟨.int 0, .nowhere⟩
    (∀ name ∈ e.accessed, env.get? name = env'.get? name) ∧ env.get? "y" ≠ env'.get? "y" ∧
      ∃ after after', e.Ends 0 env (.ok (.number zero)) after ∧
        e.Ends 0 env' (.ok (.number zero)) after' ∧
        ∀ name, env.get? name = env'.get? name → after.get? name = after'.get? name := by
  intro e env env' zero
  have hread : ∀ name ∈ e.accessed, env.get? name = env'.get? name := by
    intro name hname
    have hx : name = "x" := by simpa [e, Expr.accessed, Expr.accessedAll] using hname
    subst hx
    rfl
  have hends : e.Ends 0 env (.ok (.number zero)) (env.set "x" zero) := ⟨3, rfl⟩
  rcases Expr.ends_iff_of_agree 0 e env env' hread with ⟨hiff, hsame⟩
  rcases (hiff _).1 ⟨_, hends⟩ with ⟨after', hends'⟩
  refine ⟨hread, ?_, _, after', hends, hends', (hsame _ _ _ _ hends hends').2⟩
  intro hy
  cases hy

end Reckoner
