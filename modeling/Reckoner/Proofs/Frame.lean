import Reckoner.Proofs.Comparison
import Reckoner.Proofs.Operations

/-!
# What evaluation leaves alone

Whatever an evaluation does to the environment is a series of bindings in the innermost scope, each
of a name that some assignment of the expression has on its left. All else that can be said about
the environment afterwards follows from what one binding does.

* `Environment.Writes` — a series of bindings;
* `Eval.WritesOnly` — a computation that binds certain names only, with a rule for each way in which
  computations are built;
* `Expr.eval_writesOnly` — evaluation binds names that are assigned;
* `Expr.eval_frame` — what stays as it was.
-/

namespace Reckoner

/-! ## Series of bindings -/

/-- A name that is new comes last, and one that is not changes no name. -/
theorem Bindings.names_set {α : Type} (b : Bindings α) (name : String) (a : α) :
    (b.set name a).names = if name ∈ b.names then b.names else b.names ++ [name] := by
  induction b with
  | nil => rfl
  | cons binding b ih =>
      rcases binding with ⟨n, old⟩
      by_cases hn : n = name
      · simp [Bindings.set, Bindings.names, hn]
      · unfold Bindings.names at ih ⊢
        simp only [Bindings.set, if_neg hn, List.map_cons, ih, List.mem_cons, Ne.symm hn, false_or]
        split <;> rfl

/-- The environment `after` comes about from `env` when names that are `targets` are bound in the
innermost scope, one after another. -/
inductive Environment.Writes (targets : String → Prop) : Environment → Environment → Prop where
  | none (env : Environment) : Writes targets env env
  | set {env after : Environment} {name : String} (htarget : targets name) (q : Quantity)
      (hrest : Writes targets (env.set name q) after) : Writes targets env after

namespace Environment.Writes

variable {targets : String → Prop} {env mid after : Environment}

theorem trans (h : Writes targets env mid) (hrest : Writes targets mid after) :
    Writes targets env after := by
  induction h with
  | none => exact hrest
  | set htarget q _ ih => exact .set htarget q (ih hrest)

theorem outer_eq (h : Writes targets env after) : after.outer = env.outer := by
  induction h with
  | none => rfl
  | set _ _ _ ih => exact ih

theorem get?_of_not_target (h : Writes targets env after) {name : String}
    (hname : ¬ targets name) : after.inner.get? name = env.inner.get? name := by
  induction h with
  | none => rfl
  | set htarget q _ ih =>
      rw [ih, Environment.set, Bindings.get?_set, if_neg]
      rintro rfl
      exact hname htarget

theorem isSome_get? (h : Writes targets env after) {name : String}
    (hbound : (env.inner.get? name).isSome) : (after.inner.get? name).isSome := by
  induction h with
  | none => exact hbound
  | set _ q _ ih =>
      refine ih ?_
      rw [Environment.set, Bindings.get?_set]
      split
      · rfl
      · exact hbound

theorem names_prefix (h : Writes targets env after) : env.names <+: after.names := by
  induction h with
  | none => exact List.prefix_rfl
  | set _ q _ ih =>
      refine .trans ?_ ih
      rw [Environment.names, Environment.names, Environment.set, Bindings.names_set]
      split
      · exact List.prefix_rfl
      · exact List.prefix_append _ _

theorem target_of_mem_names (h : Writes targets env after) {name : String}
    (hname : name ∈ after.names) : name ∈ env.names ∨ targets name := by
  induction h with
  | none => exact .inl hname
  | @set env _ bound htarget q _ ih =>
      rcases ih hname with hmem | hdone
      · rw [Environment.names, Environment.set, Bindings.names_set] at hmem
        split at hmem
        · exact .inl hmem
        · rcases List.mem_append.1 hmem with hold | hnew
          · exact .inl hold
          · rw [List.mem_singleton.1 hnew]
            exact .inr htarget
      · exact .inr hdone

end Environment.Writes

/-! ## Computations -/

/-- Whatever its outcome, the computation has bound names only that are `targets`. -/
def Eval.WritesOnly (targets : String → Prop) {α : Type} (x : Eval α) : Prop :=
  ∀ state, Environment.Writes targets state.env (x state).2.env

namespace Eval.WritesOnly

variable {targets : String → Prop} {α β : Type}

theorem pure (a : α) : WritesOnly targets (Pure.pure a : Eval α) :=
  fun _ => .none _

theorem fail (cause : Cause) (pos : Position) :
    WritesOnly targets (Eval.fail cause pos : Eval α) :=
  fun _ => .none _

theorem get? (name : String) : WritesOnly targets (Eval.get? name) :=
  fun _ => .none _

theorem set {name : String} (hname : targets name) (q : Quantity) :
    WritesOnly targets (Eval.set name q) :=
  fun _ => .set hname q (.none _)

/-- A look counts, and binds nothing. -/
theorem look (pos : Position) : WritesOnly targets (Eval.look pos) := by
  intro state
  unfold Eval.look
  cases state.expiry.look with
  | ok expiry => exact .none _
  | error why => exact .none _

theorem bind {x : Eval α} {f : α → Eval β} (hx : WritesOnly targets x)
    (hf : ∀ a, WritesOnly targets (f a)) : WritesOnly targets (x >>= f) := by
  intro state
  have hfirst := hx state
  cases hrun : x state with
  | mk outcome mid =>
      rw [hrun] at hfirst
      -- What was bound before a fault stays bound.
      cases outcome with
      | error halt =>
          rw [Eval.bind_of_error hrun]
          exact hfirst
      | ok a =>
          rw [Eval.bind_of_ok hrun]
          exact hfirst.trans (hf a mid)

theorem ite {p : Prop} [Decidable p] {x y : Eval α} (hx : WritesOnly targets x)
    (hy : WritesOnly targets y) : WritesOnly targets (if p then x else y) := by
  split
  · exact hx
  · exact hy

theorem rounds {budget : Budget} {pos : Position} {condition : Eval Quantity} {body : Eval Value}
    (hcondition : WritesOnly targets condition) (hbody : WritesOnly targets body)
    (fuel done : Nat) (last : Value) :
    WritesOnly targets (Eval.rounds budget pos condition body fuel done last) := by
  induction fuel generalizing done last with
  | zero => exact fun _ => .none _
  | succ fuel ih =>
      rw [Eval.rounds_succ]
      refine bind (look pos) fun _ => bind hcondition fun q => ?_
      refine ite (ite (fail _ _) ?_) (pure last)
      exact bind hbody fun value => ih (done + 1) value

theorem closed (budget : Budget) (targets : String → Prop) :
    Eval.Closed budget targets fun x => WritesOnly targets x where
  pure := pure
  bind := bind
  get? := get?
  set _ hname q := set hname q
  fail _ pos := fail _ pos
  loop _ _ _ hcondition hbody := rounds hcondition hbody budget.fuel 0 .null

end Eval.WritesOnly

/-! ## Expressions -/

/-- Evaluation binds names that are assigned, and no others. -/
theorem Expr.eval_writesOnly {targets : String → Prop} (budget : Budget) (e : Expr)
    (h : ∀ name ∈ e.assigned, targets name) : Eval.WritesOnly targets (e.eval budget) :=
  (Eval.WritesOnly.closed budget targets).eval e h

/-- With whatever outcome an evaluation ends, called off at any of its looks or not at all, the
scopes are the same and all but the innermost are as they were; in the innermost, names that are not
assigned keep what they were bound to, no name is lost, and assigned names that are new come after
the old ones. -/
theorem Expr.eval_frame (e : Expr) (budget : Budget) (state : State) :
    let env := state.env
    let after := (e.eval budget state).2.env
    after.current = env.current ∧ after.depth = env.depth ∧ after.outer = env.outer ∧
      (∀ name ∉ e.assigned, after.inner.get? name = env.inner.get? name) ∧
      (∀ name, (env.inner.get? name).isSome → (after.inner.get? name).isSome) ∧
      env.names <+: after.names ∧
      ∀ name ∈ after.names, name ∈ env.names ∨ name ∈ e.assigned := by
  have h := Expr.eval_writesOnly budget e (fun _ hname => hname) state
  dsimp only
  refine ⟨?_, ?_, h.outer_eq, ?_, ?_, h.names_prefix, ?_⟩
  · rw [Environment.current, Environment.current, h.outer_eq]
  · rw [Environment.depth, Environment.depth, h.outer_eq]
  · exact fun name hname => h.get?_of_not_target hname
  · exact fun name hbound => h.isSome_get? hbound
  · exact fun name hname => h.target_of_mem_names hname

/-- A loop that ends after two rounds, and one that never ends and is called off at its second look:
what both have bound up to there stays bound. -/
theorem Expr.eval_frame_timedOut :
    let step : Expr := .binary ⟨.minus, "-"⟩ (.var "x" ⟨2, 12⟩) (.num (.int 1) ⟨2, 14⟩)
    let first : Expr := .loop ⟨2, 5⟩ (.var "x" ⟨2, 7⟩) [.assign "x" ⟨2, 10⟩ step]
    let second : Expr := .loop ⟨3, 5⟩ (.num (.int 1) ⟨3, 7⟩)
      [.assign "y" ⟨3, 10⟩ (.num (.int 8) ⟨3, 14⟩)]
    let e : Expr := .sequence [first, second]
    let env := (Environment.global.push.set "z" ⟨.int 7, ⟨1, 1⟩⟩).set "x" ⟨.int 2, ⟨1, 5⟩⟩
    let run := e.eval ⟨9, 0⟩ ⟨env, .after 4 .timedOut⟩
    run.1 = .error (.fault ⟨.timedOut, ⟨3, 5⟩⟩) ∧ run.2.env.names = ["z", "x", "y"] ∧
      "z" ∉ e.assigned ∧ run.2.env.inner.get? "z" = env.inner.get? "z" ∧
      env.names <+: run.2.env.names ∧ run.2.env.outer = env.outer := by
  intro step first second e env run
  have hname : "z" ∉ e.assigned := by decide
  obtain ⟨-, -, houter, hkept, -, hnames, -⟩ := e.eval_frame ⟨9, 0⟩ ⟨env, .after 4 .timedOut⟩
  exact ⟨rfl, rfl, hname, hkept "z" hname, hnames, houter⟩

end Reckoner
