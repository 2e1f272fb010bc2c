import Reckoner.Eval

/-!
# Two computations side by side

Many properties of evaluation say that two runs stay alike when they start alike. Such a property is
put together from rules, one for each way in which computations are built; a loop stays alike when
its condition and its body do.

* `Eval.bind_of_ok`, `Eval.bind_of_error` — one computation after another;
* `Likeness` — what it means for environments and for reasons to stop to be alike;
* `Alike` — two computations that keep a likeness;
* `Alike.pure`, `Alike.fail`, `Alike.look`, `Alike.bind`, `Alike.ite` — the rules;
* `Eval.rounds_succ` — one round of a loop as a computation;
* `Alike.rounds` — the rule for loops.
-/

namespace Reckoner

theorem Eval.bind_of_ok {α β : Type} {x : Eval α} {f : α → Eval β} {a : α}
    {state after : State} (h : x state = (.ok a, after)) : (x >>= f) state = f a after := by
  change Eval.bind x f state = _
  rw [Eval.bind, h]

theorem Eval.bind_of_error {α β : Type} {x : Eval α} {f : α → Eval β} {halt : Halt}
    {state after : State} (h : x state = (.error halt, after)) :
    (x >>= f) state = (.error halt, after) := by
  change Eval.bind x f state = _
  rw [Eval.bind, h]

/-- Environments that are alike, and reasons to stop that are. -/
structure Likeness where
  envs : Environment → Environment → Prop
  halts : Halt → Halt → Prop

/-- Both outcomes are answers, related by `r`, or both are reasons to stop, and alike. -/
inductive Likeness.Outcomes (l : Likeness) {α β : Type} (r : α → β → Prop) :
    Except Halt α → Except Halt β → Prop where
  | ok {a : α} {b : β} (h : r a b) : Outcomes l r (.ok a) (.ok b)
  | error {halt halt' : Halt} (h : l.halts halt halt') : Outcomes l r (.error halt) (.error halt')

theorem Likeness.Outcomes.mono {l : Likeness} {α β : Type} {r r' : α → β → Prop}
    {x : Except Halt α} {y : Except Halt β} (h : l.Outcomes r x y) (hr : ∀ a b, r a b → r' a b) :
    l.Outcomes r' x y := by
  cases h with
  | ok ha => exact .ok (hr _ _ ha)
  | error hh => exact .error hh

/-- Where only the same reasons are alike, alike outcomes with the same answers are the same. -/
theorem Likeness.Outcomes.eq {l : Likeness} {α : Type} {x y : Except Halt α}
    (h : l.Outcomes Eq x y) (hhalts : ∀ halt halt', l.halts halt halt' → halt = halt') : x = y := by
  cases h with
  | ok ha => exact congrArg _ ha
  | error hh => exact congrArg _ (hhalts _ _ hh)

/-- States are alike when their environments are, and when the same number of looks is left. -/
structure Likeness.States (l : Likeness) (state state' : State) : Prop where
  envs : l.envs state.env state'.env
  expiry : state.expiry = state'.expiry

/-- In alike states the computations have alike outcomes and leave alike states. -/
def Alike (l : Likeness) {α β : Type} (r : α → β → Prop) (x : Eval α) (y : Eval β) : Prop :=
  ∀ state state', l.States state state' →
    l.Outcomes r (x state).1 (y state').1 ∧ l.States (x state).2 (y state').2

namespace Alike

variable {l : Likeness} {α β γ δ : Type} {r : α → β → Prop} {s : γ → δ → Prop}

theorem pure {a : α} {b : β} (h : r a b) : Alike l r (Pure.pure a) (Pure.pure b) := by
  intro state state' hstate
  exact ⟨.ok h, hstate⟩

theorem fail {cause cause' : Cause} {pos pos' : Position}
    (h : l.halts (.fault ⟨cause, pos⟩) (.fault ⟨cause', pos'⟩)) :
    Alike l r (Eval.fail cause pos) (Eval.fail cause' pos') := by
  intro state state' hstate
  exact ⟨.error h, hstate⟩

/-- A look-up is alike when it finds alike quantities. -/
theorem get? {s : Option Quantity → Option Quantity → Prop} {name name' : String}
    (h : ∀ env env', l.envs env env' → s (env.get? name) (env'.get? name')) :
    Alike l s (Eval.get? name) (Eval.get? name') := by
  intro state state' hstate
  exact ⟨.ok (h _ _ hstate.envs), hstate⟩

/-- A binding is alike when it leaves alike environments. -/
theorem set {name name' : String} {q q' : Quantity}
    (h : ∀ env env', l.envs env env' → l.envs (env.set name q) (env'.set name' q')) :
    Alike l Eq (Eval.set name q) (Eval.set name' q') := by
  intro state state' hstate
  exact ⟨.ok rfl, h _ _ hstate.envs, hstate.expiry⟩

/-- Looks find the same, since the same number of them is left. -/
theorem look {pos pos' : Position}
    (h : ∀ why : Interrupt, l.halts (.fault ⟨why.cause, pos⟩) (.fault ⟨why.cause, pos'⟩)) :
    Alike l Eq (Eval.look pos) (Eval.look pos') := by
  intro state state' hstate
  unfold Eval.look
  rw [← hstate.expiry]
  cases state.expiry.look with
  | ok expiry => exact ⟨.ok rfl, hstate.envs, rfl⟩
  | error why => exact ⟨.error (h why), hstate⟩

theorem bind {x : Eval α} {y : Eval β} {f : α → Eval γ} {g : β → Eval δ} (hx : Alike l r x y)
    (hf : ∀ a b, r a b → Alike l s (f a) (g b)) : Alike l s (x >>= f) (y >>= g) := by
  intro state state' hstate
  have h := hx state state' hstate
  change l.Outcomes s (Eval.bind x f state).1 (Eval.bind y g state').1 ∧
    l.States (Eval.bind x f state).2 (Eval.bind y g state').2
  unfold Eval.bind
  generalize x state = outcome at h ⊢
  generalize y state' = outcome' at h ⊢
  rcases outcome with ⟨result, after⟩
  rcases outcome' with ⟨result', after'⟩
  rcases h with ⟨hresult, hafter⟩
  -- Only where both answer do the second computations run.
  cases hresult with
  | ok hr => exact hf _ _ hr after after' hafter
  | error hh => exact ⟨.error hh, hafter⟩

theorem mono {x : Eval α} {y : Eval β} {r' : α → β → Prop} (h : Alike l r x y)
    (hr : ∀ a b, r a b → r' a b) : Alike l r' x y := by
  intro state state' hstate
  rcases h state state' hstate with ⟨hresult, hafter⟩
  exact ⟨hresult.mono hr, hafter⟩

theorem ite {p q : Prop} [Decidable p] [Decidable q] {x x' : Eval α} {y y' : Eval β} (hpq : p ↔ q)
    (hx : Alike l r x y) (hx' : Alike l r x' y') :
    Alike l r (if p then x else x') (if q then y else y') := by
  by_cases hp : p
  · rw [if_pos hp, if_pos (hpq.1 hp)]
    exact hx
  · rw [if_neg hp, if_neg fun hq => hp (hpq.2 hq)]
    exact hx'

/-- When one of two alike computations answers, the other does. -/
theorem exists_ok {x : Eval α} {y : Eval β} {state state' after : State} {a : α}
    (h : Alike l r x y) (hstate : l.States state state') (hx : x state = (.ok a, after)) :
    ∃ b after', y state' = (.ok b, after') ∧ r a b ∧ l.States after after' := by
  rcases h state state' hstate with ⟨hresult, hafter⟩
  rw [hx] at hresult hafter
  generalize y state' = outcome at hresult hafter ⊢
  rcases outcome with ⟨result, after'⟩
  -- Alike outcomes of an answer are answers.
  cases hresult with
  | ok hr => exact ⟨_, after', rfl, hr, hafter⟩

end Alike

/-! ## Loops -/

/-- One round of a loop. -/
theorem Eval.rounds_succ (budget : Budget) (pos : Position) (condition : Eval Quantity)
    (body : Eval Value) (fuel done : Nat) (last : Value) :
    Eval.rounds budget pos condition body (fuel + 1) done last = (do
      Eval.look pos
      let q ← condition
      if q.isTrue then
        if 0 < budget.maxRounds ∧ budget.maxRounds ≤ done then
          Eval.fail (.tooManyRounds budget.maxRounds) pos
        else do
          let value ← body
          Eval.rounds budget pos condition body fuel (done + 1) value
      else return last) := by
  funext state
  rw [Eval.rounds]
  -- The definition runs its parts by hand; step by step both sides do the same.
  change _ = Eval.bind (Eval.look pos) _ state
  unfold Eval.bind
  rcases Eval.look pos state with ⟨result, state⟩
  cases result with
  | error halt => rfl
  | ok _ =>
      dsimp only
      change _ = Eval.bind condition _ state
      unfold Eval.bind
      rcases condition state with ⟨result, after⟩
      cases result with
      | error halt => rfl
      | ok q =>
          dsimp only
          by_cases hq : q.isTrue
          · rw [if_pos hq, if_pos hq]
            by_cases hover : 0 < budget.maxRounds ∧ budget.maxRounds ≤ done
            · rw [if_pos hover, if_pos hover]
              rfl
            · rw [if_neg hover, if_neg hover]
              change _ = Eval.bind body _ after
              unfold Eval.bind
              rcases body after with ⟨result, after⟩
              cases result <;> rfl
          · rw [if_neg hq, if_neg hq]
            rfl

/-- Loops whose conditions agree on the truth and whose bodies are alike are alike. -/
theorem Alike.rounds {l : Likeness} {budget : Budget} {pos pos' : Position}
    {condition condition' : Eval Quantity} {body body' : Eval Value} {r : Value → Value → Prop}
    (hinterrupt : ∀ why : Interrupt,
      l.halts (.fault ⟨why.cause, pos⟩) (.fault ⟨why.cause, pos'⟩))
    (hlimit : ∀ limit,
      l.halts (.fault ⟨.tooManyRounds limit, pos⟩) (.fault ⟨.tooManyRounds limit, pos'⟩))
    (hunfinished : l.halts (.unfinished pos) (.unfinished pos'))
    (hcondition : Alike l (fun q q' => q.isTrue = q'.isTrue) condition condition')
    (hbody : Alike l r body body') (fuel done : Nat) {last last' : Value} (hlast : r last last') :
    Alike l r (Eval.rounds budget pos condition body fuel done last)
      (Eval.rounds budget pos' condition' body' fuel done last') := by
  -- Each round starts from the value of the one before, so the induction is over every `last`.
  induction fuel generalizing done last last' with
  | zero =>
      intro state state' hstate
      exact ⟨.error hunfinished, hstate⟩
  | succ fuel ih =>
      rw [Eval.rounds_succ, Eval.rounds_succ]
      refine .bind (.look hinterrupt) fun _ _ _ => .bind hcondition ?_
      intro q q' hq
      refine .ite (by rw [hq]) (.ite Iff.rfl (.fail (hlimit _)) ?_) (.pure hlast)
      exact .bind hbody fun value value' hvalue => ih (done + 1) hvalue

end Reckoner
