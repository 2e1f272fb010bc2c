import Reckoner.Proofs.Finishing
import Reckoner.Proofs.Places

/-!
# Evaluation without places

A number carries the place of its literal, and faults are reported at places, but nothing is
computed from them. So the same tree in other places, in environments that are the same but for
places, has the same value but for places and makes the same changes, or fails for the same cause.

* `Quantity.unplaced`, `Value.unplaced`, `Environment.unplaced` — without places;
* `Halt.cause?` — a reason to stop without its place;
* `placeFree` — the likeness of evaluations that differ in places only;
* `Expr.eval_mapPos`, `Expr.evalAll_mapPosAll` — evaluation keeps it;
* `SameOutcome` — outcomes that differ in places only;
* `Expr.ends_iff_of_unplaced` — two runs of trees that differ in places only.
-/

namespace Reckoner

/-! ## Values and environments -/

/-- The quantity without its place. -/
def Quantity.unplaced (q : Quantity) : Quantity :=
  ⟨q.number, .nowhere⟩

mutual

/-- The value without places. -/
def Value.unplaced : Value → Value
  | .null => .null
  | .number q => .number q.unplaced
  | .list items => .list (Value.unplacedAll items)

/-- The values without places. -/
def Value.unplacedAll : List Value → List Value
  | [] => []
  | v :: rest => v.unplaced :: Value.unplacedAll rest

end

@[simp] theorem Value.unplacedAll_eq_map (vs : List Value) :
    Value.unplacedAll vs = vs.map Value.unplaced := by
  induction vs with
  | nil => simp [Value.unplacedAll]
  | cons v vs ih => simp [Value.unplacedAll, ih]

/-- The bindings of a scope without places. -/
def Frame.unplaced (frame : Frame) : Frame :=
  frame.map fun (name, q) => (name, q.unplaced)

/-- The environment without places: the same names in the same order, bound to the same numbers. -/
def Environment.unplaced (env : Environment) : Environment :=
  ⟨env.inner.unplaced, env.outer.map Frame.unplaced⟩

theorem Frame.get?_unplaced (frame : Frame) (name : String) :
    frame.unplaced.get? name = (frame.get? name).map Quantity.unplaced := by
  induction frame with
  | nil => rfl
  | cons binding frame ih =>
      rcases binding with ⟨n, q⟩
      change Bindings.get? ((n, q.unplaced) :: Frame.unplaced frame) name = _
      by_cases hn : n = name
      · simp [Bindings.get?, hn]
      · simp [Bindings.get?, hn, ih]

theorem Frame.set_unplaced (frame : Frame) (name : String) (q : Quantity) :
    Frame.unplaced (frame.set name q) = frame.unplaced.set name q.unplaced := by
  induction frame with
  | nil => rfl
  | cons binding frame ih =>
      rcases binding with ⟨n, old⟩
      change _ = Bindings.set ((n, old.unplaced) :: Frame.unplaced frame) name q.unplaced
      by_cases hn : n = name
      · simp [Bindings.set, hn, Frame.unplaced]
      · simp only [Bindings.set, hn, if_false, ← ih]
        rfl

theorem Environment.get?_unplaced (env : Environment) (name : String) :
    env.unplaced.get? name = (env.get? name).map Quantity.unplaced := by
  have hframes : env.unplaced.frames = env.frames.map Frame.unplaced := rfl
  unfold Environment.get? Environment.find?
  rw [hframes]
  -- From scope to scope the same names are bound.
  induction env.frames with
  | nil => rfl
  | cons frame frames ih =>
      rw [List.map_cons, List.findSome?_cons, List.findSome?_cons, Frame.get?_unplaced, ih]
      cases Bindings.get? frame name <;> rfl

theorem Environment.set_unplaced (env : Environment) (name : String) (q : Quantity) :
    (env.set name q).unplaced = env.unplaced.set name q.unplaced := by
  simp [Environment.unplaced, Environment.set, Frame.set_unplaced]

theorem Quantity.number_of_unplaced {q q' : Quantity} (h : q.unplaced = q'.unplaced) :
    q.number = q'.number := by
  injection h

theorem Quantity.isTrue_of_unplaced {q q' : Quantity} (h : q.unplaced = q'.unplaced) :
    q.isTrue = q'.isTrue := by
  unfold Quantity.isTrue
  rw [Quantity.number_of_unplaced h]

theorem Value.sameNumber_unplaced (v w : Value) :
    v.unplaced.sameNumber w.unplaced = v.sameNumber w := by
  cases v <;> cases w <;> rfl

theorem Operator.applyUnary_unplaced (op : Operator) {q q' : Quantity}
    (h : q.unplaced = q'.unplaced) : (op.applyUnary q).unplaced = (op.applyUnary q').unplaced := by
  unfold Operator.applyUnary
  rw [Quantity.number_of_unplaced h, Quantity.isTrue_of_unplaced h]
  -- A plus, and `not` of a true number, give the operand itself, with its place.
  split
  · rfl
  · simp only [Value.unplaced, h]
  · split
    · split
      · simp only [Value.unplaced, h]
      · rfl
    · rfl
  · rfl

/-! ## Computations -/

/-- The cause of a fault; an unfinished loop has none. -/
def Halt.cause? : Halt → Option Cause
  | .fault f => some f.cause
  | .unfinished _ => none

/-- Environments are the same but for places, and so are the reasons to stop. -/
def placeFree : Likeness where
  envs env env' := env.unplaced = env'.unplaced
  halts halt halt' := halt.cause? = halt'.cause?

/-- Computations of values that differ in places only. -/
abbrev AlikeValues (x y : Eval Value) : Prop :=
  Alike placeFree (fun v v' => v.unplaced = v'.unplaced) x y

theorem Alike.get?_placeFree (name : String) :
    Alike placeFree (fun q? q'? => q?.map Quantity.unplaced = q'?.map Quantity.unplaced)
      (Eval.get? name) (Eval.get? name) := by
  refine .get? fun env env' henv => ?_
  have hsame : env.unplaced = env'.unplaced := henv
  rw [← Environment.get?_unplaced, ← Environment.get?_unplaced, hsame]

theorem Alike.set_placeFree (name : String) {q q' : Quantity} (h : q.unplaced = q'.unplaced) :
    Alike placeFree Eq (Eval.set name q) (Eval.set name q') := by
  refine .set fun env env' henv => ?_
  have hsame : env.unplaced = env'.unplaced := henv
  change (env.set name q).unplaced = (env'.set name q').unplaced
  rw [Environment.set_unplaced, Environment.set_unplaced, hsame, h]

theorem Alike.number (role : Role) (e e' : Expr) {v v' : Value} (h : v.unplaced = v'.unplaced) :
    Alike placeFree (fun q q' => q.unplaced = q'.unplaced) (Eval.number role e v)
      (Eval.number role e' v') := by
  cases v <;> cases v' <;> simp only [Value.unplaced, reduceCtorEq, Value.number.injEq] at h
  case null.null => exact .fail rfl
  case number.number => exact .pure h
  case list.list => exact .fail rfl

/-! ## Expressions -/

mutual

/-- A tree in other places has the same value but for places. -/
theorem Expr.eval_mapPos (budget : Budget) (f : Position → Position) :
    ∀ e : Expr, AlikeValues (e.eval budget) ((e.mapPos f).eval budget)
  | .num value pos => .pure rfl
  | .var name pos => by
      rw [Expr.mapPos, Expr.eval, Expr.eval]
      refine .bind (.get?_placeFree name) ?_
      intro q? q'? hq
      cases q? <;> cases q'? <;> simp only [Option.map, reduceCtorEq, Option.some.injEq] at hq
      case none.none => exact .fail rfl
      case some.some => exact .pure (congrArg Value.number hq)
  | .assign name pos value => by
      rw [Expr.mapPos, Expr.eval, Expr.eval]
      refine .bind (Expr.eval_mapPos budget f value) ?_
      intro v v' hv
      cases v <;> cases v' <;> simp only [Value.unplaced, reduceCtorEq, Value.number.injEq] at hv
      case null.null => exact .fail rfl
      case number.number =>
          exact .bind (.set_placeFree name hv) fun _ _ _ => .pure (congrArg Value.number hv)
      case list.list => exact .fail rfl
  | .binary op left right => by
      rw [Expr.mapPos, Expr.eval, Expr.eval]
      refine .bind (Expr.eval_mapPos budget f left) ?_
      intro u u' hu
      refine .bind (.number .left left (left.mapPos f) hu) ?_
      intro a a' ha
      refine .bind (Expr.eval_mapPos budget f right) ?_
      intro v v' hv
      cases v <;> cases v' <;> simp only [Value.unplaced, reduceCtorEq, Value.number.injEq] at hv
      case null.null => exact .pure rfl
      case number.number b b' =>
          dsimp only
          rw [Quantity.number_of_unplaced ha, Quantity.number_of_unplaced hv]
          -- A fault is reported at another place, for the same cause.
          cases op.apply a'.number b'.number with
          | ok v => exact .pure rfl
          | error cause => exact .fail rfl
      case list.list => exact .fail rfl
  | .unary op operand => by
      rw [Expr.mapPos, Expr.eval, Expr.eval]
      refine .bind (Expr.eval_mapPos budget f operand) ?_
      intro v v' hv
      refine .bind (.number .operand operand (operand.mapPos f) hv) ?_
      intro q q' hq
      exact .pure (op.applyUnary_unplaced hq)
  | .sequence statements => by
      rw [Expr.mapPos, Expr.eval, Expr.eval]
      refine .bind (Expr.evalAll_mapPosAll budget f statements) ?_
      intro vs vs' hvs
      refine .pure ?_
      rw [Value.unplaced, Value.unplaced, Value.unplacedAll_eq_map, Value.unplacedAll_eq_map, hvs]
  | .choose pos arms => by
      rw [Expr.mapPos, Expr.eval, Expr.eval]
      exact Arms.evalTrue_mapPos budget f arms
  | .select pos subject arms => by
      rw [Expr.mapPos, Expr.eval, Expr.eval]
      refine .bind (Expr.eval_mapPos budget f subject) ?_
      intro v v' hv
      exact Arms.evalEqual_mapPos budget f arms hv
  | .loop pos condition body => by
      rw [Expr.mapPos, Expr.eval, Expr.eval]
      -- A loop looks only at the truth of its condition.
      refine .rounds (fun _ => rfl) (fun _ => rfl) rfl ?_
        (Expr.evalLast_mapPosAll budget f body rfl) _ _ rfl
      refine .bind (Expr.eval_mapPos budget f condition) ?_
      intro v v' hv
      refine (Alike.number .whileCondition condition (condition.mapPos f) hv).mono ?_
      intro q q' hq
      exact Quantity.isTrue_of_unplaced hq

theorem Expr.evalAll_mapPosAll (budget : Budget) (f : Position → Position) :
    ∀ es : List Expr,
      Alike placeFree (fun vs vs' => vs.map Value.unplaced = vs'.map Value.unplaced)
        (Expr.evalAll budget es) (Expr.evalAll budget (Expr.mapPosAll f es))
  | [] => .pure rfl
  | e :: rest => by
      rw [Expr.mapPosAll, Expr.evalAll, Expr.evalAll]
      refine .bind (Expr.eval_mapPos budget f e) ?_
      intro v v' hv
      refine .bind (Expr.evalAll_mapPosAll budget f rest) ?_
      intro vs vs' hvs
      refine .pure ?_
      rw [List.map_cons, List.map_cons, hv, hvs]

theorem Expr.evalLast_mapPosAll (budget : Budget) (f : Position → Position) :
    ∀ (es : List Expr) {last last' : Value}, last.unplaced = last'.unplaced →
      AlikeValues (Expr.evalLast budget es last) (Expr.evalLast budget (Expr.mapPosAll f es) last')
  | [], _, _, hlast => .pure hlast
  | e :: rest, _, _, _ => by
      rw [Expr.mapPosAll, Expr.evalLast, Expr.evalLast]
      refine .bind (Expr.eval_mapPos budget f e) ?_
      intro v v' hv
      exact Expr.evalLast_mapPosAll budget f rest hv

theorem Arms.evalTrue_mapPos (budget : Budget) (f : Position → Position) :
    ∀ arms : Arms, AlikeValues (arms.evalTrue budget) ((arms.mapPos f).evalTrue budget)
  | .none => .pure rfl
  | .otherwise body => by
      rw [Arms.mapPos, Arms.evalTrue, Arms.evalTrue]
      exact Expr.eval_mapPos budget f body
  | .arm guard body rest => by
      rw [Arms.mapPos, Arms.evalTrue, Arms.evalTrue]
      refine .bind (Expr.eval_mapPos budget f guard) ?_
      intro v v' hv
      refine .bind (.number .ifCondition guard (guard.mapPos f) hv) ?_
      intro q q' hq
      exact .ite (by rw [Quantity.isTrue_of_unplaced hq]) (Expr.eval_mapPos budget f body)
        (Arms.evalTrue_mapPos budget f rest)

theorem Arms.evalEqual_mapPos (budget : Budget) (f : Position → Position) :
    ∀ (arms : Arms) {subject subject' : Value}, subject.unplaced = subject'.unplaced →
      AlikeValues (arms.evalEqual budget subject) ((arms.mapPos f).evalEqual budget subject')
  | .none, _, _, _ => .pure rfl
  | .otherwise body, _, _, _ => by
      rw [Arms.mapPos, Arms.evalEqual, Arms.evalEqual]
      exact Expr.eval_mapPos budget f body
  | .arm guard body rest, subject, subject', hsubject => by
      rw [Arms.mapPos, Arms.evalEqual, Arms.evalEqual]
      refine .bind (Expr.eval_mapPos budget f guard) ?_
      intro v v' hv
      -- Numbers are compared, not places.
      have hsame : v.sameNumber subject = v'.sameNumber subject' := by
        rw [← Value.sameNumber_unplaced, ← Value.sameNumber_unplaced v', hv, hsubject]
      exact .ite (by rw [hsame]) (Expr.eval_mapPos budget f body)
        (Arms.evalEqual_mapPos budget f rest hsubject)

end

/-! ## Runs to the end -/

/-- Trees that are the same but for places have outcomes that are. -/
theorem Expr.eval_alike_of_unplaced {e e' : Expr} (he : e.unplaced = e'.unplaced)
    (budget : Budget) : AlikeValues (e.eval budget) (e'.eval budget) := by
  intro state state' hstate
  -- Both are alike to the tree without places, in the second state.
  have hfirst : _ ∧ _ := Expr.eval_mapPos budget (fun _ => .nowhere) e state state' hstate
  have hsecond : _ ∧ _ :=
    Expr.eval_mapPos budget (fun _ => .nowhere) e' state' state' ⟨rfl, rfl⟩
  rw [← Expr.unplaced, he] at hfirst
  rw [← Expr.unplaced] at hsecond
  rcases hfirst with ⟨houtcome, hafter⟩
  rcases hsecond with ⟨houtcome', hafter'⟩
  refine ⟨?_, hafter.envs.trans hafter'.envs.symm, hafter.expiry.trans hafter'.expiry.symm⟩
  generalize (e.eval budget state).1 = outcome at houtcome ⊢
  generalize (e'.eval budget state').1 = outcome' at houtcome' ⊢
  generalize (e'.unplaced.eval budget state').1 = common at houtcome houtcome'
  cases houtcome with
  | ok h =>
      cases houtcome' with
      | ok h' => exact .ok (h.trans h'.symm)
  | error h =>
      cases houtcome' with
      | error h' => exact .error (h.trans h'.symm)

/-- The same value but for places, or faults of the same class in the same words. -/
inductive SameOutcome : Except Fault Value → Except Fault Value → Prop where
  | value {v v' : Value} : v.unplaced = v'.unplaced → SameOutcome (.ok v) (.ok v')
  | fault {f f' : Fault} :
      f.code = f'.code → f.message = f'.message → SameOutcome (.error f) (.error f')

theorem Expr.Ends.of_unplaced {limit : Int} {e e' : Expr} {env env' after : Environment}
    {outcome : Except Fault Value} (h : e.Ends limit env outcome after)
    (he : e.unplaced = e'.unplaced) (henv : env.unplaced = env'.unplaced) :
    ∃ outcome' after', e'.Ends limit env' outcome' after' ∧ SameOutcome outcome outcome' ∧
      after.unplaced = after'.unplaced := by
  rcases h with ⟨fuel, hrun⟩
  let budget : Budget := { fuel, maxRounds := limit.toNat }
  rcases Expr.eval_alike_of_unplaced he budget ⟨env, .never⟩ ⟨env', .never⟩ ⟨henv, rfl⟩ with
    ⟨houtcomes, hafter⟩
  rw [hrun] at houtcomes hafter
  rcases hrun' : e'.eval budget ⟨env', .never⟩ with ⟨outcome', ⟨after', expiry⟩⟩
  rw [hrun'] at houtcomes hafter
  obtain ⟨hafter, rfl⟩ := hafter
  cases outcome with
  | ok v =>
      cases houtcomes with
      | @ok _ v' hv => exact ⟨.ok v', after', ⟨fuel, hrun'⟩, .value hv, hafter⟩
  | error f =>
      cases houtcomes with
      | @error _ halt' hcause =>
          -- An unfinished loop has no cause, so it is not alike to a fault.
          cases halt' with
          | unfinished pos => cases hcause
          | fault f' =>
              have hsame : f.cause = f'.cause := Option.some.inj hcause
              refine ⟨.error f', after', ⟨fuel, hrun'⟩, .fault ?_ ?_, hafter⟩
              · exact congrArg Cause.code hsame
              · exact congrArg Cause.message hsame

/-- Two trees are the same but for places, and so are two environments. Then one evaluation ends
when the other does; whenever both end, they have the same value but for places, or faults of the
same class in the same words, and the environments they leave are the same but for places. -/
theorem Expr.ends_iff_of_unplaced (limit : Int) {e e' : Expr} {env env' : Environment}
    (he : e.unplaced = e'.unplaced) (henv : env.unplaced = env'.unplaced) :
    ((∃ outcome after, e.Ends limit env outcome after) ↔
        ∃ outcome' after', e'.Ends limit env' outcome' after') ∧
      ∀ outcome outcome' after after', e.Ends limit env outcome after →
        e'.Ends limit env' outcome' after' →
        SameOutcome outcome outcome' ∧ after.unplaced = after'.unplaced := by
  refine ⟨⟨?_, ?_⟩, ?_⟩
  · rintro ⟨outcome, after, h⟩
    rcases h.of_unplaced he henv with ⟨outcome', after', h', -⟩
    exact ⟨outcome', after', h'⟩
  · rintro ⟨outcome', after', h'⟩
    rcases h'.of_unplaced he.symm henv.symm with ⟨outcome, after, h, -⟩
    exact ⟨outcome, after, h⟩
  · intro outcome outcome' after after' h h'
    rcases h.of_unplaced he henv with ⟨other, last, hother, hsame, hafter⟩
    rcases hother.unique h' with ⟨rfl, rfl⟩
    exact ⟨hsame, hafter⟩

/-- A copy of `x` and a division of it by zero, once on one line and once on two, where `x` is a
number of the source and where it is none. -/
theorem Expr.ends_iff_of_unplaced_division :
    let tree (p q : Position) : Expr :=
      .sequence [.assign "y" p (.var "x" p),
        .binary ⟨.div, "/"⟩ (.var "y" q) (.num (.int 0) q)]
    let e := tree ⟨1, 1⟩ ⟨1, 9⟩
    let e' := tree ⟨1, 1⟩ ⟨2, 3⟩
    let env := Environment.global.set "x" ⟨.int 5, ⟨7, 7⟩⟩
    let env' := Environment.global.set "x" ⟨.int 5, .nowhere⟩
    e.unplaced = e'.unplaced ∧ env.unplaced = env'.unplaced ∧
      ∃ f f' after after', e.Ends 0 env (.error f) after ∧ e'.Ends 0 env' (.error f') after' ∧
        f.pos ≠ f'.pos ∧ after.get? "y" ≠ after'.get? "y" ∧
        SameOutcome (.error f) (.error f') ∧ after.unplaced = after'.unplaced := by
  intro tree e e' env env'
  have he : e.unplaced = e'.unplaced := rfl
  have henv : env.unplaced = env'.unplaced := rfl
  let f : Fault := ⟨.divisionByZero, ⟨1, 9⟩⟩
  let f' : Fault := ⟨.divisionByZero, ⟨2, 3⟩⟩
  let after := env.set "y" ⟨.int 5, ⟨7, 7⟩⟩
  let after' := env'.set "y" ⟨.int 5, .nowhere⟩
  have hends : e.Ends 0 env (.error f) after := ⟨1, rfl⟩
  have hends' : e'.Ends 0 env' (.error f') after' := ⟨1, rfl⟩
  have hsame := (Expr.ends_iff_of_unplaced 0 he henv).2 _ _ _ _ hends hends'
  refine ⟨he, henv, f, f', after, after', hends, hends', by decide, ?_, hsame⟩
  intro hy
  have hplace : (⟨7, 7⟩ : Position) = .nowhere := congrArg Quantity.origin (Option.some.inj hy)
  cases hplace

end Reckoner
