import Reckoner.Proofs.Comparison
import Reckoner.Proofs.Operations

/-!
# Evaluations that come to an end

A budget leaves loops unfinished after some number of rounds. An evaluation ends when some number of
rounds is enough, and then any greater number leads to the same end. A limit on the rounds of each
loop makes every evaluation end.

* `Unfinished` — a loop has used up its rounds;
* `Expr.eval_of_le_fuel` — more rounds change nothing where fewer are enough;
* `Expr.eval_finishes_of_limit` — with a limit every evaluation ends;
* `Expr.eval_never` — a run that nobody calls off stays so;
* `Expr.eval_finishes_of_expiry` — a run that is called off ends;
* `Expr.Ends` — how an evaluation ends that is given as many rounds as it needs;
* `Expr.Ends.unique` — it ends in one way only.
-/

namespace Reckoner

/-- A loop was left unfinished. -/
def Unfinished {α : Type} (outcome : Except Halt α) : Prop :=
  ∃ pos, outcome = .error (.unfinished pos)

theorem not_unfinished_mapError {α : Type} (o : Except Fault α) :
    ¬ Unfinished (o.mapError .fault) := by
  rintro ⟨pos, h⟩
  cases o with
  | ok a => cases h
  | error fault => cases h

theorem mapError_fault_inj {α : Type} {o o' : Except Fault α}
    (h : o.mapError Halt.fault = o'.mapError Halt.fault) : o = o' := by
  cases o with
  | ok a => cases o' with
    | ok a' => exact congrArg _ (Except.ok.inj h)
    | error fault' => cases h
  | error fault => cases o' with
    | ok a' => cases h
    | error fault' => exact congrArg _ (Halt.fault.inj (Except.error.inj h))

/-! ## More rounds -/

/-- The first computation is left unfinished or does the same as the second. -/
def Eval.Reaches {α : Type} (x y : Eval α) : Prop :=
  ∀ state, Unfinished (x state).1 ∨ y state = x state

namespace Eval.Reaches

variable {α β : Type}

theorem refl (x : Eval α) : Reaches x x := fun _ => .inr rfl

theorem bind {x y : Eval α} {f g : α → Eval β} (hx : Reaches x y)
    (hf : ∀ a, Reaches (f a) (g a)) : Reaches (x >>= f) (y >>= g) := by
  intro state
  have hstart := hx state
  rcases hrun : x state with ⟨outcome, after⟩
  rw [hrun] at hstart
  cases outcome with
  | error halt =>
      rw [Eval.bind_of_error hrun]
      rcases hstart with ⟨pos, hpos⟩ | hsame
      · cases hpos
        exact .inl ⟨pos, rfl⟩
      · exact .inr (Eval.bind_of_error hsame)
  | ok a =>
      -- An answer is not unfinished, so both computations go on from it.
      have hsame : y state = (.ok a, after) := by
        rcases hstart with ⟨pos, hpos⟩ | hsame
        · cases hpos
        · exact hsame
      rw [Eval.bind_of_ok hrun, Eval.bind_of_ok hsame]
      exact hf a after

theorem ite {p : Prop} [Decidable p] {x x' y y' : Eval α} (hx : Reaches x y)
    (hx' : Reaches x' y') : Reaches (if p then x else x') (if p then y else y') := by
  split
  · exact hx
  · exact hx'

/-- A loop that is given more rounds goes on where it was left unfinished. -/
theorem rounds (budget : Budget) (total : Nat) (pos : Position)
    {condition condition' : Eval Quantity} {body body' : Eval Value}
    (hcondition : Reaches condition condition') (hbody : Reaches body body') {fuel fuel' : Nat}
    (hfuel : fuel ≤ fuel') (done : Nat) (last : Value) :
    Reaches (Eval.rounds budget pos condition body fuel done last)
      (Eval.rounds { budget with fuel := total } pos condition' body' fuel' done last) := by
  induction fuel generalizing fuel' done last with
  | zero =>
      intro state
      exact .inl ⟨pos, rfl⟩
  | succ fuel ih =>
      obtain ⟨fuel', rfl⟩ : ∃ more, fuel' = more + 1 := Nat.exists_eq_add_one.2 (by omega)
      rw [Eval.rounds_succ, Eval.rounds_succ]
      refine bind (refl _) fun _ => bind hcondition fun q => ite (ite (refl _) ?_) (refl _)
      exact bind hbody fun value => ih (by omega) (done + 1) value

theorem related (budget : Budget) {fuel : Nat} (hfuel : budget.fuel ≤ fuel) :
    Operations.Related (.plain budget) (.plain { budget with fuel }) (fun _ => True)
      (fun _ => True) @Eval.Reaches where
  plain := Operations.isPlain_plain _
  plain' := Operations.isPlain_plain _
  pure _ := refl _
  bind := bind
  get? _ _ := refl _
  set _ _ _ := refl _
  fail _ _ := refl _
  loop pos _ _ _ _ hcondition hbody := rounds budget fuel pos hcondition hbody hfuel 0 .null

end Eval.Reaches

/-- An evaluation that is not left unfinished does not change when it is given more rounds. -/
theorem Expr.eval_of_le_fuel {e : Expr} {budget : Budget} {state : State}
    (h : ¬ Unfinished (e.eval budget state).1) (fuel : Nat) (hfuel : budget.fuel ≤ fuel) :
    e.eval { budget with fuel } state = e.eval budget state := by
  have hreaches := (Eval.Reaches.related budget hfuel).eval e (fun _ _ => trivial)
    (fun _ _ => trivial) state
  exact hreaches.resolve_left h

/-! ## A limit -/

/-- The computation is never left unfinished. -/
def Eval.Finishes {α : Type} (x : Eval α) : Prop :=
  ∀ state, ¬ Unfinished (x state).1

namespace Eval.Finishes

variable {α β : Type}

theorem pure (a : α) : Finishes (Pure.pure a) := by
  rintro state ⟨pos, hpos⟩
  cases hpos

theorem fail (cause : Cause) (pos : Position) : Finishes (Eval.fail cause pos : Eval α) := by
  rintro state ⟨pos', hpos⟩
  cases hpos

theorem look (pos : Position) : Finishes (Eval.look pos) := by
  rintro state ⟨pos', hpos⟩
  unfold Eval.look at hpos
  split at hpos <;> cases hpos

theorem bind {x : Eval α} {f : α → Eval β} (hx : Finishes x) (hf : ∀ a, Finishes (f a)) :
    Finishes (x >>= f) := by
  intro state
  have hstart := hx state
  rcases hrun : x state with ⟨outcome, after⟩
  rw [hrun] at hstart
  cases outcome with
  | ok a =>
      rw [Eval.bind_of_ok hrun]
      exact hf a after
  | error halt =>
      rw [Eval.bind_of_error hrun]
      rintro ⟨pos, hpos⟩
      cases hpos
      exact hstart ⟨pos, rfl⟩

/-- A loop with a limit ends when it may begin more rounds than the limit: the last of them only
looks at the condition. -/
theorem rounds {budget : Budget} (hlimit : 0 < budget.maxRounds) (pos : Position)
    {condition : Eval Quantity} {body : Eval Value} (hcondition : Finishes condition)
    (hbody : Finishes body) {fuel done : Nat} (hdone : done ≤ budget.maxRounds)
    (hfuel : budget.maxRounds < done + fuel) (last : Value) :
    Finishes (Eval.rounds budget pos condition body fuel done last) := by
  induction fuel generalizing done last with
  | zero => omega
  | succ fuel ih =>
      rw [Eval.rounds_succ]
      refine bind (look pos) fun _ => bind hcondition fun q => ?_
      split
      · split
        · exact fail _ _
        · exact bind hbody fun value => ih (by omega) (by omega) value
      · exact pure _

theorem closed {budget : Budget} (hlimit : 0 < budget.maxRounds)
    (hfuel : budget.maxRounds < budget.fuel) :
    Eval.Closed budget (fun _ => True) fun x => Finishes x where
  pure := pure
  bind := bind
  get? _ := by
    rintro state ⟨pos, hpos⟩
    cases hpos
  set _ _ _ := by
    rintro state ⟨pos, hpos⟩
    cases hpos
  fail _ pos := fail _ pos
  loop pos _ _ hcondition hbody :=
    rounds hlimit pos hcondition hbody (Nat.zero_le _) (by omega) .null

end Eval.Finishes

/-- With a limit on the rounds of each loop, one round more than the limit is always enough. -/
theorem Expr.eval_finishes_of_limit {budget : Budget} (hlimit : 0 < budget.maxRounds)
    (hfuel : budget.maxRounds < budget.fuel) (e : Expr) (state : State) :
    ¬ Unfinished (e.eval budget state).1 :=
  (Eval.Finishes.closed hlimit hfuel).eval e (fun _ _ => trivial) state

/-! ## Runs that nobody calls off -/

/-- A run that is not to be called off before the computation is not to be called off after it. -/
def Eval.KeepsNever {α : Type} (x : Eval α) : Prop :=
  ∀ env, (x ⟨env, .never⟩).2.expiry = .never

namespace Eval.KeepsNever

variable {α β : Type}

theorem pure (a : α) : KeepsNever (Pure.pure a) := fun _ => rfl

theorem fail (cause : Cause) (pos : Position) : KeepsNever (Eval.fail cause pos : Eval α) :=
  fun _ => rfl

theorem bind {x : Eval α} {f : α → Eval β} (hx : KeepsNever x) (hf : ∀ a, KeepsNever (f a)) :
    KeepsNever (x >>= f) := by
  intro env
  rcases hrun : x ⟨env, .never⟩ with ⟨outcome, ⟨after, expiry⟩⟩
  obtain rfl : expiry = .never := by
    have hstart := hx env
    rwa [hrun] at hstart
  cases outcome with
  | ok a =>
      rw [Eval.bind_of_ok hrun]
      exact hf a after
  | error halt => rw [Eval.bind_of_error hrun]

theorem rounds (budget : Budget) (pos : Position) {condition : Eval Quantity} {body : Eval Value}
    (hcondition : KeepsNever condition) (hbody : KeepsNever body) (fuel done : Nat) (last : Value) :
    KeepsNever (Eval.rounds budget pos condition body fuel done last) := by
  induction fuel generalizing done last with
  | zero => exact fun _ => rfl
  | succ fuel ih =>
      have hlook : KeepsNever (Eval.look pos) := fun _ => rfl
      rw [Eval.rounds_succ]
      refine bind hlook fun _ => bind hcondition fun q => ?_
      split
      · split
        · exact fail _ _
        · exact bind hbody fun value => ih (done + 1) value
      · exact pure last

theorem closed (budget : Budget) : Eval.Closed budget (fun _ => True) fun x => KeepsNever x where
  pure := pure
  bind := bind
  get? _ _ := rfl
  set _ _ _ _ := rfl
  fail _ pos := fail _ pos
  loop pos _ _ hcondition hbody := rounds budget pos hcondition hbody budget.fuel 0 .null

end Eval.KeepsNever

theorem Eval.KeepsNever.exists_env {α : Type} {x : Eval α} (h : KeepsNever x) {env : Environment}
    {outcome : Except Halt α} {state : State} (hrun : x ⟨env, .never⟩ = (outcome, state)) :
    ∃ after, state = ⟨after, .never⟩ := by
  have hnever := h env
  rw [hrun] at hnever
  exact ⟨state.env, State.ext rfl hnever⟩

theorem Expr.eval_keepsNever (e : Expr) (budget : Budget) : Eval.KeepsNever (e.eval budget) :=
  (Eval.KeepsNever.closed budget).eval e fun _ _ => trivial

/-- A run that nobody calls off stays so, whatever the outcome. -/
theorem Expr.eval_never {e : Expr} {budget : Budget} {env : Environment}
    {outcome : Except Halt Value} {state : State}
    (h : e.eval budget ⟨env, .never⟩ = (outcome, state)) : ∃ after, state = ⟨after, .never⟩ :=
  (e.eval_keepsNever budget).exists_env h

theorem Expr.evalAll_never {es : List Expr} {budget : Budget} {env : Environment}
    {outcome : Except Halt (List Value)} {state : State}
    (h : Expr.evalAll budget es ⟨env, .never⟩ = (outcome, state)) :
    ∃ after, state = ⟨after, .never⟩ :=
  ((Eval.KeepsNever.closed budget).evalAll es fun _ _ => trivial).exists_env h

/-! ## Runs that are called off -/

/-- A run that is called off after fewer looks than loops may begin rounds: the computation is not
left unfinished, and afterwards the run is called off after no more looks. -/
def Eval.Expires (fuel : Nat) {α : Type} (x : Eval α) : Prop :=
  ∀ env looks why, looks < fuel →
    ¬ Unfinished (x ⟨env, .after looks why⟩).1 ∧
      ∃ left ≤ looks, (x ⟨env, .after looks why⟩).2.expiry = .after left why

namespace Eval.Expires

variable {α β : Type} {fuel : Nat}

theorem pure (a : α) : Expires fuel (Pure.pure a) := by
  intro env looks why _
  refine ⟨?_, looks, Nat.le_refl _, rfl⟩
  rintro ⟨pos, hpos⟩
  cases hpos

theorem fail (cause : Cause) (pos : Position) : Expires fuel (Eval.fail cause pos : Eval α) := by
  intro env looks why _
  refine ⟨?_, looks, Nat.le_refl _, rfl⟩
  rintro ⟨pos', hpos⟩
  cases hpos

theorem bind {x : Eval α} {f : α → Eval β} (hx : Expires fuel x) (hf : ∀ a, Expires fuel (f a)) :
    Expires fuel (x >>= f) := by
  intro env looks why hlooks
  obtain ⟨hends, left, hle, hleft⟩ := hx env looks why hlooks
  rcases hrun : x ⟨env, .after looks why⟩ with ⟨outcome, ⟨after, expiry⟩⟩
  rw [hrun] at hends hleft
  obtain rfl : expiry = .after left why := hleft
  cases outcome with
  | ok a =>
      rw [Eval.bind_of_ok hrun]
      obtain ⟨hends', left', hle', hleft'⟩ := hf a after left why (by omega)
      exact ⟨hends', left', by omega, hleft'⟩
  | error halt =>
      rw [Eval.bind_of_error hrun]
      refine ⟨?_, left, hle, rfl⟩
      rintro ⟨pos, hpos⟩
      cases hpos
      exact hends ⟨pos, rfl⟩

/-- Each round takes a look, so the looks are used up before the rounds are. -/
theorem rounds (budget : Budget) (pos : Position) {condition : Eval Quantity} {body : Eval Value}
    (hcondition : Expires fuel condition) (hbody : Expires fuel body) {rounds : Nat}
    (hrounds : rounds ≤ fuel) (done : Nat) (last : Value) :
    Expires rounds (Eval.rounds budget pos condition body rounds done last) := by
  induction rounds generalizing done last with
  | zero => exact fun _ _ _ hlooks => absurd hlooks (Nat.not_lt_zero _)
  | succ rounds ih =>
      intro env looks why hlooks
      rw [Eval.rounds_succ]
      rcases looks with _ | looks
      · refine ⟨?_, 0, Nat.le_refl _, rfl⟩
        rintro ⟨pos', hpos⟩
        cases hpos
      · have hlook : Eval.look pos ⟨env, .after (looks + 1) why⟩ =
            (.ok (), ⟨env, .after looks why⟩) := rfl
        rw [Eval.bind_of_ok hlook]
        have hround : Expires rounds (do
            let q ← condition
            if q.isTrue then
              if 0 < budget.maxRounds ∧ budget.maxRounds ≤ done then
                Eval.fail (.tooManyRounds budget.maxRounds) pos
              else do
                let value ← body
                Eval.rounds budget pos condition body rounds (done + 1) value
            else return last) := by
          have hmono {γ : Type} {x : Eval γ} (hx : Expires fuel x) : Expires rounds x :=
            fun env looks why hlooks => hx env looks why (by omega)
          refine bind (hmono hcondition) fun q => ?_
          split
          · split
            · exact fail _ _
            · exact bind (hmono hbody) fun value => ih (by omega) (done + 1) value
          · exact pure last
        obtain ⟨hends, left, hle, hleft⟩ := hround env looks why (by omega)
        exact ⟨hends, left, by omega, hleft⟩

theorem closed (budget : Budget) :
    Eval.Closed budget (fun _ => True) fun x => Expires budget.fuel x where
  pure := pure
  bind := bind
  get? name env looks why _ := by
    refine ⟨?_, looks, Nat.le_refl _, rfl⟩
    rintro ⟨pos, hpos⟩
    cases hpos
  set name _ q env looks why _ := by
    refine ⟨?_, looks, Nat.le_refl _, rfl⟩
    rintro ⟨pos, hpos⟩
    cases hpos
  fail _ pos := fail _ pos
  loop pos _ _ hcondition hbody := rounds budget pos hcondition hbody (Nat.le_refl _) 0 .null

end Eval.Expires

/-- A run that is called off after some looks ends: no more rounds than looks are ever needed. -/
theorem Expr.eval_finishes_of_expiry (e : Expr) {budget : Budget} (env : Environment) {looks : Nat}
    (why : Interrupt) (hlooks : looks < budget.fuel) :
    ¬ Unfinished (e.eval budget ⟨env, .after looks why⟩).1 :=
  ((Eval.Expires.closed budget).eval e (fun _ _ => trivial) env looks why hlooks).1

/-! ## Ends -/

/-- The evaluation, in a run that nobody calls off, given as many rounds as it needs and a limit on
the rounds of each loop, has this outcome and leaves this environment. A limit that is not positive
is none. -/
def Expr.Ends (limit : Int) (e : Expr) (env : Environment) (outcome : Except Fault Value)
    (after : Environment) : Prop :=
  ∃ fuel, e.eval { fuel, maxRounds := limit.toNat } ⟨env, .never⟩ =
    (outcome.mapError .fault, ⟨after, .never⟩)

theorem Expr.Ends.unique {limit : Int} {e : Expr} {env after after' : Environment}
    {outcome outcome' : Except Fault Value} (h : e.Ends limit env outcome after)
    (h' : e.Ends limit env outcome' after') : outcome = outcome' ∧ after = after' := by
  rcases h with ⟨fuel, hrun⟩
  rcases h' with ⟨fuel', hrun'⟩
  -- The greater of both numbers of rounds leads to both ends.
  have hmore := Expr.eval_of_le_fuel (by rw [hrun]; exact not_unfinished_mapError _)
    (max fuel fuel') (Nat.le_max_left _ _)
  have hmore' := Expr.eval_of_le_fuel (by rw [hrun']; exact not_unfinished_mapError _)
    (max fuel fuel') (Nat.le_max_right _ _)
  have hsame : (outcome.mapError Halt.fault, State.mk after .never) =
      (outcome'.mapError Halt.fault, State.mk after' .never) :=
    calc
      _ = _ := hrun.symm
      _ = _ := hmore.symm
      _ = _ := hmore'
      _ = _ := hrun'
  rcases Prod.mk.inj hsame with ⟨houtcome, hafter⟩
  exact ⟨mapError_fault_inj houtcome, congrArg State.env hafter⟩

end Reckoner
