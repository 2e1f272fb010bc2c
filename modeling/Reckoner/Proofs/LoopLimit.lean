import Reckoner.Proofs.Finishing

/-!
# The limit on loops

Each run of a loop counts its own rounds, and a limit stops it between the condition and the body of
the first round too many. What a limit does to an evaluation is read off the evaluation without one:
that one begins rounds, each with its number in its run of its loop, and the first round whose
number is over the limit is where the limited evaluation fails. If there is none, the limit changes
nothing.

* `Round`, `peak` — rounds that are begun, and the greatest number among them;
* `Traced` — computations that also tell which rounds they begin;
* `Operations.tracing` — evaluation without a limit, with its rounds;
* `Capped` — a computation with a limit against one without;
* `Expr.EndsAfter` — how an evaluation without a limit ends, and after which rounds;
* `Expr.ends_of_limit` — the threshold of the limit.
-/

namespace Reckoner

/-! ## Rounds -/

/-- A round of the loop at a place: its body is begun for the `number`th time in one run of it. -/
structure Round where
  pos : Position
  number : Nat

/-- The greatest number of a round, zero when there is none. -/
def peak (rounds : List Round) : Nat :=
  (rounds.map Round.number).foldr max 0

/-- The first round over a limit; zero is no limit. -/
def firstOver? (limit : Nat) (rounds : List Round) : Option Round :=
  rounds.find? fun round => 0 < limit ∧ limit < round.number

theorem peak_le_iff {rounds : List Round} {limit : Nat} :
    peak rounds ≤ limit ↔ ∀ round ∈ rounds, round.number ≤ limit := by
  induction rounds with
  | nil => simp [peak]
  | cons round rounds ih =>
      have hcons : peak (round :: rounds) = max round.number (peak rounds) := rfl
      rw [hcons, Nat.max_le, ih, List.forall_mem_cons]

theorem firstOver?_eq_none {limit : Nat} {rounds : List Round} (h : peak rounds ≤ limit) :
    firstOver? limit rounds = none := by
  refine List.find?_eq_none.2 ?_
  intro round hround
  have hle := peak_le_iff.1 h round hround
  simp only [decide_eq_true_eq]
  omega

theorem exists_firstOver? {limit : Nat} {rounds : List Round} (hlimit : 0 < limit)
    (h : limit < peak rounds) : ∃ round, firstOver? limit rounds = some round := by
  refine Option.ne_none_iff_exists'.1 fun hnone => ?_
  have hle : peak rounds ≤ limit := by
    refine peak_le_iff.2 fun round hround => ?_
    have hnot := List.find?_eq_none.1 hnone round hround
    simp only [decide_eq_true_eq] at hnot
    omega
  omega

/-! ## Computations with their rounds -/

/-- A computation over a state that also tells which rounds it begins, in order. -/
def Traced (α : Type) : Type :=
  State → (Except Halt α × State) × List Round

namespace Traced

def pure {α : Type} (a : α) : Traced α :=
  fun state => ((.ok a, state), [])

def bind {α β : Type} (x : Traced α) (f : α → Traced β) : Traced β :=
  fun state =>
    match x state with
    | ((.ok a, state), rounds) =>
      let (result, more) := f a state
      (result, rounds ++ more)
    | ((.error halt, state), rounds) => ((.error halt, state), rounds)

instance : Monad Traced where
  pure := Traced.pure
  bind := Traced.bind

/-- A computation that begins no round. -/
def lift {α : Type} (x : Eval α) : Traced α :=
  fun state => (x state, [])

/-- Begins a round. -/
def enter (round : Round) : Traced Unit :=
  fun state => ((.ok (), state), [round])

/-- The rounds of a loop without a limit. -/
def rounds (pos : Position) (condition : Traced Quantity) (body : Traced Value) :
    (fuel done : Nat) → (last : Value) → Traced Value
  | 0, _, _ => lift fun state => (.error (.unfinished pos), state)
  | fuel + 1, done, last => do
    lift (Eval.look pos)
    let q ← condition
    if q.isTrue then do
      enter ⟨pos, done + 1⟩
      let value ← body
      rounds pos condition body fuel (done + 1) value
    else return last

end Traced

/-- The operations of evaluation without a limit, with its rounds. -/
def Operations.tracing (fuel : Nat) : Operations Traced where
  get? name := .lift (Eval.get? name)
  set name q := .lift (Eval.set name q)
  fail cause pos := .lift (Eval.fail cause pos)
  apply := Operator.apply
  applyUnary := Operator.applyUnary
  list role e := .lift (Eval.fail (.notNumber role) e.pos)
  loop pos condition body := Traced.rounds pos condition body fuel 0 .null

/-! ## Computations with a limit -/

/-- The computation with a limit does what the one without does, unless that one begins a round over
the limit: then it fails at the loop of the first such round. -/
def Capped {α : Type} (limit : Nat) (x : Traced α) (y : Eval α) : Prop :=
  ∀ state,
    match firstOver? limit (x state).2 with
    | none => y state = (x state).1
    | some round => (y state).1 = .error (.fault ⟨.tooManyRounds limit, round.pos⟩)

namespace Capped

variable {α β : Type} {limit : Nat}

theorem lift (limit : Nat) (x : Eval α) : Capped limit (.lift x) x := fun _ => rfl

theorem pure (limit : Nat) (a : α) : Capped limit (Pure.pure a) (Pure.pure a) := fun _ => rfl

theorem bind {x : Traced α} {y : Eval α} {f : α → Traced β} {g : α → Eval β}
    (hx : Capped limit x y) (hf : ∀ a, Capped limit (f a) (g a)) :
    Capped limit (x >>= f) (y >>= g) := by
  intro state
  have hstart := hx state
  change match firstOver? limit (Traced.bind x f state).2 with
    | none => (y >>= g) state = (Traced.bind x f state).1
    | some round => ((y >>= g) state).1 = .error (.fault ⟨.tooManyRounds limit, round.pos⟩)
  unfold Traced.bind
  rcases hrun : x state with ⟨⟨outcome, after⟩, rounds⟩
  rw [hrun] at hstart
  cases outcome with
  | error halt =>
      dsimp only at hstart ⊢
      cases hover : firstOver? limit rounds with
      | none =>
          rw [hover] at hstart
          exact Eval.bind_of_error hstart
      | some round =>
          rw [hover] at hstart
          exact congrArg Prod.fst (Eval.bind_of_error (Prod.ext hstart rfl))
  | ok a =>
      dsimp only at hstart ⊢
      have hsplit : firstOver? limit (rounds ++ (f a after).2) =
          (firstOver? limit rounds).or (firstOver? limit (f a after).2) := List.find?_append
      rw [hsplit]
      cases hover : firstOver? limit rounds with
      | none =>
          -- Up to here the limit has changed nothing, and both computations go on.
          rw [hover] at hstart
          rw [Eval.bind_of_ok hstart]
          exact hf a after
      | some round =>
          rw [hover] at hstart
          exact congrArg Prod.fst (Eval.bind_of_error (Prod.ext hstart rfl))

/-- A round is begun unless as many as the limit allows are over. -/
theorem enter (pos : Position) (done : Nat) {x : Traced α} {y : Eval α} (hx : Capped limit x y) :
    Capped limit (do Traced.enter ⟨pos, done + 1⟩; x)
      (if 0 < limit ∧ limit ≤ done then Eval.fail (.tooManyRounds limit) pos else y) := by
  intro state
  have hfirst : firstOver? limit (⟨pos, done + 1⟩ :: (x state).2) =
      if 0 < limit ∧ limit ≤ done then some ⟨pos, done + 1⟩ else firstOver? limit (x state).2 := by
    by_cases hover : 0 < limit ∧ limit ≤ done
    · simp only [firstOver?, List.find?_cons, Nat.lt_add_one_iff, hover, and_self, decide_true,
        if_true]
    · simp only [firstOver?, List.find?_cons, Nat.lt_add_one_iff, hover, decide_false, if_false]
  change match firstOver? limit (⟨pos, done + 1⟩ :: (x state).2) with
    | none => _ = (x state).1
    | some round => _ = _
  rw [hfirst]
  by_cases hover : 0 < limit ∧ limit ≤ done
  · rw [if_pos hover, if_pos hover]
    rfl
  · rw [if_neg hover, if_neg hover]
    exact hx state

/-- The limit is looked at in each round, between the condition and the body. -/
theorem rounds (budget : Budget) (pos : Position) {condition : Traced Quantity}
    {condition' : Eval Quantity} {body : Traced Value} {body' : Eval Value}
    (hcondition : Capped budget.maxRounds condition condition')
    (hbody : Capped budget.maxRounds body body') (fuel done : Nat) (last : Value) :
    Capped budget.maxRounds (Traced.rounds pos condition body fuel done last)
      (Eval.rounds budget pos condition' body' fuel done last) := by
  induction fuel generalizing done last with
  | zero => exact lift _ _
  | succ fuel ih =>
      rw [Traced.rounds, Eval.rounds_succ]
      refine bind (lift _ _) fun _ => bind hcondition fun q => ?_
      by_cases hq : q.isTrue = true
      · rw [if_pos hq, if_pos hq]
        exact enter pos done (bind hbody fun value => ih (done + 1) value)
      · rw [if_neg hq, if_neg hq]
        exact pure _ _

theorem related (budget : Budget) :
    Operations.Related (.tracing budget.fuel) (.plain budget) (fun _ => True) (fun _ => True)
      fun x y => Capped budget.maxRounds x y where
  plain := ⟨rfl, rfl, fun _ _ => rfl⟩
  plain' := Operations.isPlain_plain budget
  pure := pure _
  bind := bind
  get? _ _ := lift _ _
  set _ _ _ := lift _ _
  fail _ _ := lift _ _
  loop pos _ _ _ _ hcondition hbody := rounds budget pos hcondition hbody budget.fuel 0 .null

end Capped

/-! ## Evaluations with a limit -/

theorem Expr.eval_capped (e : Expr) (fuel limit : Nat) :
    Capped limit (e.evalWith (.tracing fuel)) (e.eval { fuel, maxRounds := limit }) := by
  have hcapped := (Capped.related { fuel, maxRounds := limit }).evalWith e (fun _ _ => trivial)
    fun _ _ => trivial
  rwa [Expr.evalWith_plain] at hcapped

/-- The evaluation without a limit, in a run that nobody calls off, given as many rounds as it
needs, begins these rounds in this order, has this outcome and leaves this environment. -/
def Expr.EndsAfter (e : Expr) (env : Environment) (rounds : List Round)
    (outcome : Except Fault Value) (after : Environment) : Prop :=
  ∃ fuel, e.evalWith (.tracing fuel) ⟨env, .never⟩ =
    ((outcome.mapError .fault, ⟨after, .never⟩), rounds)

/-- Without a limit, the evaluations that end do so after some rounds. -/
theorem Expr.ends_iff_exists_rounds {unlimited : Int} (hunlimited : unlimited ≤ 0) {e : Expr}
    {env after : Environment} {outcome : Except Fault Value} :
    e.Ends unlimited env outcome after ↔ ∃ rounds, e.EndsAfter env rounds outcome after := by
  have hsame (fuel : Nat) : e.eval { fuel, maxRounds := unlimited.toNat } ⟨env, .never⟩ =
      (e.evalWith (.tracing fuel) ⟨env, .never⟩).1 := by
    have hcapped := e.eval_capped fuel 0 ⟨env, .never⟩
    have hnone : firstOver? 0 (e.evalWith (.tracing fuel) ⟨env, .never⟩).2 = none := by
      simp [firstOver?]
    rw [hnone] at hcapped
    rw [Int.toNat_of_nonpos hunlimited]
    exact hcapped
  constructor
  · rintro ⟨fuel, hrun⟩
    exact ⟨_, fuel, Prod.ext ((hsame fuel).symm.trans hrun) rfl⟩
  · rintro ⟨rounds, fuel, hrun⟩
    exact ⟨fuel, (hsame fuel).trans (congrArg Prod.fst hrun)⟩

theorem Expr.EndsAfter.ends_of_peak_le {e : Expr} {env after : Environment} {rounds : List Round}
    {outcome : Except Fault Value} (h : e.EndsAfter env rounds outcome after) {limit : Int}
    (hlimit : (peak rounds : Int) ≤ limit) : e.Ends limit env outcome after := by
  rcases h with ⟨fuel, hrun⟩
  have hnone : firstOver? limit.toNat rounds = none := firstOver?_eq_none (by omega)
  have hcapped := e.eval_capped fuel limit.toNat ⟨env, .never⟩
  rw [hrun, hnone] at hcapped
  exact ⟨fuel, hcapped⟩

theorem Expr.EndsAfter.ends_of_lt_peak {e : Expr} {env after : Environment} {rounds : List Round}
    {outcome : Except Fault Value} (h : e.EndsAfter env rounds outcome after) {limit : Int}
    (hpositive : 0 < limit) (hlimit : limit < peak rounds) :
    ∃ round after', firstOver? limit.toNat rounds = some round ∧
      e.Ends limit env (.error ⟨.tooManyRounds limit.toNat, round.pos⟩) after' := by
  rcases h with ⟨fuel, hrun⟩
  obtain ⟨round, hround⟩ : ∃ round, firstOver? limit.toNat rounds = some round :=
    exists_firstOver? (by omega) (by omega)
  have hcapped := e.eval_capped fuel limit.toNat ⟨env, .never⟩
  rw [hrun, hround] at hcapped
  rcases hlimited : e.eval { fuel, maxRounds := limit.toNat } ⟨env, .never⟩ with ⟨outcome', state⟩
  obtain ⟨after', rfl⟩ := Expr.eval_never hlimited
  rw [hlimited] at hcapped
  obtain rfl : outcome' = _ := hcapped
  exact ⟨round, after', hround, fuel, hlimited⟩

/-- The threshold of the limit on loops. With a limit every evaluation ends, whenever it may be
called off. In a run that nobody calls off, an evaluation without a limit ends after some rounds, of
which `peak rounds` is the most that any one run of any loop begins: every limit from there on leads
to the same end, and every lower one to a fault at the loop of the first round over it. -/
theorem Expr.ends_of_limit (e : Expr) (env : Environment) :
    (∀ (limit : Int) (expiry : Expiry), 0 < limit → ∃ enough, ∀ fuel, enough ≤ fuel →
        ¬ Unfinished (e.eval { fuel, maxRounds := limit.toNat } ⟨env, expiry⟩).1) ∧
      (∀ (unlimited : Int) (outcome : Except Fault Value) (after : Environment), unlimited ≤ 0 →
        (e.Ends unlimited env outcome after ↔ ∃ rounds, e.EndsAfter env rounds outcome after)) ∧
      ∀ (rounds : List Round) (outcome : Except Fault Value) (after : Environment),
        e.EndsAfter env rounds outcome after →
        (∀ limit : Int, peak rounds ≤ limit → e.Ends limit env outcome after) ∧
          ∀ limit : Int, 0 < limit → limit < peak rounds →
            ∃ round after', firstOver? limit.toNat rounds = some round ∧
              e.Ends limit env (.error ⟨.tooManyRounds limit.toNat, round.pos⟩) after' := by
  refine ⟨?_, ?_, ?_⟩
  · intro limit expiry hlimit
    refine ⟨limit.toNat + 1, fun fuel hfuel => ?_⟩
    let budget : Budget := { fuel, maxRounds := limit.toNat }
    have hpositive : 0 < budget.maxRounds := Int.pos_iff_toNat_pos.1 hlimit
    exact e.eval_finishes_of_limit hpositive hfuel ⟨env, expiry⟩
  · intro unlimited outcome after hunlimited
    exact Expr.ends_iff_exists_rounds hunlimited
  · intro rounds outcome after hrounds
    constructor
    · intro limit hlimit
      exact hrounds.ends_of_peak_le hlimit
    · intro limit hpositive hlimit
      exact hrounds.ends_of_lt_peak hpositive hlimit

/-- A loop of two rounds around one of three: the limit counts each run of the inner loop by itself,
so three is enough, and two stops the inner loop. -/
theorem Expr.ends_of_limit_nested :
    let step (name : String) : Expr :=
      .assign name .start (.binary ⟨.minus, "-"⟩ (.var name .start) (.num (.int 1) .start))
    let inner : Expr := .loop ⟨2, 5⟩ (.var "y" .start) [step "y"]
    let e : Expr := .loop ⟨1, 5⟩ (.var "x" .start)
      [.assign "y" .start (.num (.int 3) .start), inner, step "x"]
    let zero : Quantity := ⟨.int 0, .nowhere⟩
    let env := Environment.global.set "x" ⟨.int 2, .nowhere⟩
    let after := (env.set "x" zero).set "y" zero
    ∃ rounds, e.EndsAfter env rounds (.ok (.number zero)) after ∧ peak rounds = 3 ∧
      e.Ends 3 env (.ok (.number zero)) after ∧
      ∃ after', e.Ends 2 env (.error ⟨.tooManyRounds 2, ⟨2, 5⟩⟩) after' := by
  intro step inner e zero env after
  let rounds : List Round :=
    [⟨⟨1, 5⟩, 1⟩, ⟨⟨2, 5⟩, 1⟩, ⟨⟨2, 5⟩, 2⟩, ⟨⟨2, 5⟩, 3⟩,
      ⟨⟨1, 5⟩, 2⟩, ⟨⟨2, 5⟩, 1⟩, ⟨⟨2, 5⟩, 2⟩, ⟨⟨2, 5⟩, 3⟩]
  have hrounds : e.EndsAfter env rounds (.ok (.number zero)) after := ⟨4, rfl⟩
  rcases (e.ends_of_limit env).2.2 rounds _ after hrounds with ⟨henough, hfew⟩
  rcases hfew 2 (by decide) (by decide) with ⟨round, after', hround, hends⟩
  cases hround
  exact ⟨rounds, hrounds, rfl, henough 3 (by decide), after', hends⟩

end Reckoner
