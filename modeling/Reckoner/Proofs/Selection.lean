import Reckoner.Proofs.Frame
import Reckoner.Proofs.Noninterference
import Reckoner.Proofs.NotStuck
import Reckoner.Proofs.Scopes.Arena

/-!
# Choices by equality as choices by truth

A choice by equality does what a choice by truth does that compares each guard with a variable the
subject was assigned to. The variable must be a new name, and the guards that are evaluated must be
numbers. The environments of both differ in nothing but this name, and while the arms are tried it
stands for the subject.

* `Environment.without` — an environment but for a name;
* `Arms.comparedTo` — the guards compared with a variable;
* `Arms.Tries`, `Arms.Picks` — the guards that are evaluated, and what comes of them;
* `Expr.EndsInTurn` — one expression after another;
* `Arms.evalTrue_comparedTo` — the arms tried by truth and by equality;
* `Expr.select_ends_iff` — a choice by equality, step by step;
* `Expr.select_iff_choose` — both choices.
-/

namespace Reckoner

/-! ## Environments but for a name -/

namespace Bindings

variable {α : Type}

theorem erase_cons (n : String) (a : α) (b : Bindings α) (name : String) :
    erase ((n, a) :: b) name = if n = name then b.erase name else (n, a) :: b.erase name := by
  by_cases hn : n = name <;> simp [erase, hn]

theorem erase_set_self (b : Bindings α) (name : String) (a : α) :
    (b.set name a).erase name = b.erase name := by
  induction b with
  | nil => simp [set, erase_cons]
  | cons entry b ih =>
      rcases entry with ⟨n, old⟩
      by_cases hn : n = name
      · simp [set, erase_cons, hn]
      · simp [set, erase_cons, hn, ih]

theorem erase_set_of_ne (b : Bindings α) {name other : String} (h : other ≠ name) (a : α) :
    (b.set other a).erase name = (b.erase name).set other a := by
  induction b with
  | nil => simp [set, erase, h]
  | cons entry b ih =>
      rcases entry with ⟨n, old⟩
      by_cases hn : n = name
      · subst hn
        simp [set, erase_cons, Ne.symm h, ih]
      · by_cases hother : n = other
        · simp [set, erase_cons, hother, h]
        · simp [set, erase_cons, hn, hother, ih]

end Bindings

namespace Environment

/-- The environment without a name in its innermost scope. -/
def without (env : Environment) (name : String) : Environment :=
  { env with inner := env.inner.erase name }

@[simp] theorem without_set_self (env : Environment) (name : String) (q : Quantity) :
    (env.set name q).without name = env.without name := by
  rw [without, set, Bindings.erase_set_self]
  rfl

theorem without_set_of_ne (env : Environment) {name other : String} (h : other ≠ name)
    (q : Quantity) : (env.set other q).without name = (env.without name).set other q := by
  rw [without, set, Bindings.erase_set_of_ne _ h]
  rfl

theorem get?_without (env : Environment) {name other : String} (h : other ≠ name) :
    (env.without name).get? other = env.get? other := by
  simp only [get?, find?, frames, without, List.findSome?_cons, Bindings.get?_erase,
    if_neg (Ne.symm h)]

end Environment

/-- Environments that differ in nothing but the name, and the same reasons to stop. -/
def apartFrom (name : String) : Likeness where
  envs env env' := env.without name = env'.without name
  halts := Eq

theorem apartFrom_related (budget : Budget) (name : String) :
    Operations.Related (.plain budget) (.plain budget) (· ≠ name) (fun _ => True)
      fun x y => Alike (apartFrom name) Eq x y := by
  refine Alike.related_eq (fun _ => rfl) budget ?_ ?_
  · intro other hother env env' henv
    have hsame : env.without name = env'.without name := henv
    rw [← env.get?_without hother, hsame, env'.get?_without hother]
  · intro other q env env' henv
    have hsame : env.without name = env'.without name := henv
    change (env.set other q).without name = (env'.set other q).without name
    by_cases hother : other = name
    · subst hother
      rw [Environment.without_set_self, Environment.without_set_self, hsame]
    · rw [Environment.without_set_of_ne _ hother, Environment.without_set_of_ne _ hother, hsame]

/-! ## A variable for the subject -/

/-- The second environment is the first but for the name, which it has bound to the quantity. -/
structure Holding (name : String) (q : Quantity) (env env' : Environment) : Prop where
  same : env.without name = env'.without name
  bound : env'.inner.get? name = some q

theorem Holding.get? {name : String} {q : Quantity} {env env' : Environment}
    (h : Holding name q env env') : env'.get? name = some q := by
  simp [Environment.get?, Environment.find?, Environment.frames, h.bound]

theorem holding_set (env : Environment) (name : String) (q : Quantity) :
    Holding name q env (env.set name q) where
  same := (env.without_set_self name q).symm
  bound := by simp [Environment.set, Bindings.get?_set]

/-- An expression in which the name does not occur has the same outcome, and the name stands for
the same quantity afterwards. -/
theorem Expr.eval_holding {e : Expr} {name : String} (hread : name ∉ e.accessed)
    (hwritten : name ∉ e.assigned) (budget : Budget) {q : Quantity} {env env' : Environment}
    (h : Holding name q env env') :
    (e.eval budget ⟨env, .never⟩).1 = (e.eval budget ⟨env', .never⟩).1 ∧
      Holding name q (e.eval budget ⟨env, .never⟩).2.env (e.eval budget ⟨env', .never⟩).2.env := by
  have hknown : ∀ other ∈ e.accessed, other ≠ name := fun _ hother heq => hread (heq ▸ hother)
  -- That the name stays bound does not follow from the likeness, which forgets it.
  rcases (apartFrom_related budget name).eval e hknown (fun _ _ => trivial) ⟨env, .never⟩
    ⟨env', .never⟩ ⟨h.same, rfl⟩ with ⟨houtcomes, hsame⟩
  have hwrites : Environment.Writes (· ∈ e.assigned) env' (e.eval budget ⟨env', .never⟩).2.env :=
    Expr.eval_writesOnly budget e (fun _ hother => hother) ⟨env', .never⟩
  have hbound := (hwrites.get?_of_not_target hwritten).trans h.bound
  exact ⟨houtcomes.eq fun _ _ hhalt => hhalt, hsame.envs, hbound⟩

/-! ## Arms that are tried -/

namespace Arms

/-- The guards compared with a variable; where the variable stands is given guard by guard. -/
def comparedTo (name : String) (place : Nat → Position) : Arms → Arms
  | .none => .none
  | .otherwise body => .otherwise body
  | .arm guard body rest =>
    .arm (.binary ⟨.equal, "=="⟩ guard (.var name (place 0))) body
      (rest.comparedTo name fun i => place (i + 1))

/-- When the arms are tried for a subject, the guard `other` is evaluated, in the environment
`there`: it is the first, or those before it ended with something else than the subject. -/
inductive Tries (limit : Int) (subject : Quantity) :
    Arms → Environment → (other : Expr) → (there : Environment) → Prop where
  | first {guard body : Expr} {rest : Arms} {env : Environment} :
      Tries limit subject (.arm guard body rest) env guard env
  | later {guard body : Expr} {rest : Arms} {env mid : Environment} {v : Value} {other : Expr}
      {there : Environment} (hguard : guard.Ends limit env (.ok v) mid)
      (hmiss : v.sameNumber (.number subject) = false)
      (hrest : Tries limit subject rest mid other there) :
      Tries limit subject (.arm guard body rest) env other there

/-- Every guard that is evaluated is a number or fails. -/
def Numeric (limit : Int) (subject : Quantity) (arms : Arms) (env : Environment) : Prop :=
  ∀ guard there, arms.Tries limit subject env guard there →
    ∀ v last, guard.Ends limit there (.ok v) last → ∃ a, v = .number a

/-- What comes of trying the arms for a subject: the guards are evaluated in order up to the first
that fails or is the same number, and then the body of this one and no other. -/
inductive Picks (limit : Int) (subject : Quantity) :
    Arms → Environment → Except Fault Value → Environment → Prop where
  | none {env : Environment} : Picks limit subject .none env (.ok .null) env
  | otherwise {body : Expr} {env after : Environment} {outcome : Except Fault Value}
      (hbody : body.Ends limit env outcome after) :
      Picks limit subject (.otherwise body) env outcome after
  | failed {guard body : Expr} {rest : Arms} {env after : Environment} {fault : Fault}
      (hguard : guard.Ends limit env (.error fault) after) :
      Picks limit subject (.arm guard body rest) env (.error fault) after
  | hit {guard body : Expr} {rest : Arms} {env mid after : Environment} {a : Quantity}
      {outcome : Except Fault Value} (hguard : guard.Ends limit env (.ok (.number a)) mid)
      (hsame : a.number.equal subject.number = true) (hbody : body.Ends limit mid outcome after) :
      Picks limit subject (.arm guard body rest) env outcome after
  | miss {guard body : Expr} {rest : Arms} {env mid after : Environment} {a : Quantity}
      {outcome : Except Fault Value} (hguard : guard.Ends limit env (.ok (.number a)) mid)
      (hdiffers : a.number.equal subject.number = false)
      (hrest : Picks limit subject rest mid outcome after) :
      Picks limit subject (.arm guard body rest) env outcome after

variable {limit : Int} {subject : Quantity} {guard body : Expr} {rest : Arms}
  {env mid : Environment} {v : Value}

theorem Numeric.first (h : Numeric limit subject (.arm guard body rest) env)
    (hguard : guard.Ends limit env (.ok v) mid) : ∃ a, v = .number a :=
  h guard env .first v mid hguard

theorem Numeric.later (h : Numeric limit subject (.arm guard body rest) env)
    (hguard : guard.Ends limit env (.ok v) mid)
    (hmiss : v.sameNumber (.number subject) = false) : Numeric limit subject rest mid :=
  fun other there htries => h other there (.later hguard hmiss htries)

end Arms

/-- A comparison for equality with a variable that is bound. -/
theorem Expr.eval_equal_var {guard : Expr} {budget : Budget} {state mid : State}
    {a q : Quantity} (hguard : guard.eval budget state = (.ok (.number a), mid)) {name : String}
    (hname : mid.env.get? name = some q) (pos : Position) :
    (Expr.binary ⟨.equal, "=="⟩ guard (.var name pos)).eval budget state =
      (.ok (.ofBool (a.number.equal q.number)), mid) := by
  have hleft : Eval.number .left guard (.number a) mid = (.ok a, mid) := rfl
  rw [Expr.eval, Eval.bind_of_ok hguard, Eval.bind_of_ok hleft,
    Eval.bind_of_ok (Expr.eval_var_of_get? hname _ _)]
  rfl

/-- One arm of a choice by equality whose guard is a number. -/
theorem Arms.evalEqual_of_number {guard : Expr} {budget : Budget} {state mid : State}
    {a : Quantity} (hguard : guard.eval budget state = (.ok (.number a), mid)) (body : Expr)
    (rest : Arms) (subject : Quantity) :
    (Arms.arm guard body rest).evalEqual budget (.number subject) state =
      if a.number.equal subject.number then body.eval budget mid
      else rest.evalEqual budget (.number subject) mid := by
  rw [Arms.evalEqual, Eval.bind_of_ok hguard, Value.sameNumber]
  split <;> rfl

/-- The same arm in a choice by truth, with a variable for the subject. -/
theorem Arms.evalTrue_of_number {guard : Expr} {budget : Budget} {state mid : State}
    {a q : Quantity} (hguard : guard.eval budget state = (.ok (.number a), mid)) {name : String}
    (hname : mid.env.get? name = some q) (pos : Position) (body : Expr) (rest : Arms) :
    (Arms.arm (.binary ⟨.equal, "=="⟩ guard (.var name pos)) body rest).evalTrue budget state =
      if a.number.equal q.number then body.eval budget mid else rest.evalTrue budget mid := by
  rw [Arms.evalTrue, Eval.bind_of_ok (Expr.eval_equal_var hguard hname pos)]
  cases a.number.equal q.number <;> rfl

/-- Within one budget the arms tried by truth do what they do by equality, where the name holds the
subject. -/
theorem Arms.evalTrue_comparedTo {limit : Int} {name : String} {q : Quantity} (fuel : Nat) :
    ∀ (arms : Arms) (place : Nat → Position) {env env' : Environment},
      name ∉ arms.accessed → name ∉ arms.assigned → Holding name q env env' →
      arms.Numeric limit q env →
      let budget : Budget := { fuel, maxRounds := limit.toNat }
      (arms.evalEqual budget (.number q) ⟨env, .never⟩).1 =
          ((arms.comparedTo name place).evalTrue budget ⟨env', .never⟩).1 ∧
        Holding name q (arms.evalEqual budget (.number q) ⟨env, .never⟩).2.env
          ((arms.comparedTo name place).evalTrue budget ⟨env', .never⟩).2.env
  | .none, _, _, _, _, _, hholding, _ => ⟨rfl, hholding⟩
  | .otherwise body, _, env, env', hread, hwritten, hholding, _ => by
      intro budget
      rw [Arms.evalEqual, Arms.comparedTo, Arms.evalTrue]
      exact Expr.eval_holding hread hwritten budget hholding
  | .arm guard body rest, place, env, env', hread, hwritten, hholding, hnumeric => by
      intro budget
      simp only [Arms.accessed, Arms.assigned, List.mem_append, not_or] at hread hwritten
      -- The guard leaves the name alone, so the comparison after it finds the subject.
      rcases Expr.eval_holding hread.1.1 hwritten.1.1 budget hholding with ⟨hsame, hafter⟩
      rw [Arms.comparedTo]
      rcases hguard : guard.eval budget ⟨env, .never⟩ with ⟨outcome, state⟩
      rcases hguard' : guard.eval budget ⟨env', .never⟩ with ⟨outcome', state'⟩
      obtain ⟨mid, rfl⟩ := Expr.eval_never hguard
      obtain ⟨mid', rfl⟩ := Expr.eval_never hguard'
      rw [hguard, hguard'] at hsame hafter
      obtain rfl : outcome = outcome' := hsame
      cases outcome with
      | error halt =>
          have hbinary : (Expr.binary ⟨.equal, "=="⟩ guard (.var name (place 0))).eval budget
              ⟨env', .never⟩ = (.error halt, ⟨mid', .never⟩) := by
            rw [Expr.eval, Eval.bind_of_error hguard']
          rw [Arms.evalEqual, Eval.bind_of_error hguard, Arms.evalTrue,
            Eval.bind_of_error hbinary]
          exact ⟨rfl, hafter⟩
      | ok v =>
          have hends : guard.Ends limit env (.ok v) mid := ⟨fuel, hguard⟩
          rcases hnumeric.first hends with ⟨a, rfl⟩
          rw [Arms.evalEqual_of_number hguard, Arms.evalTrue_of_number hguard' hafter.get?]
          by_cases hequal : a.number.equal q.number
          · rw [if_pos hequal, if_pos hequal]
            exact Expr.eval_holding hread.1.2 hwritten.1.2 budget hafter
          · rw [if_neg hequal, if_neg hequal]
            exact Arms.evalTrue_comparedTo fuel rest _ hread.2 hwritten.2 hafter
              (hnumeric.later hends (by simpa [Value.sameNumber] using hequal))

/-! ## Choices that end -/

/-- A computation in two steps that ends: it ends with a fault of the first, or in the second. -/
theorem Eval.bind_ends {α β : Type} {x : Eval α} {f : α → Eval β} {state after : State}
    {outcome : Except Fault β} (h : (x >>= f) state = (outcome.mapError .fault, after)) :
    (∃ fault, outcome = .error fault ∧ x state = (.error (.fault fault), after)) ∨
      ∃ a mid, x state = (.ok a, mid) ∧ f a mid = (outcome.mapError .fault, after) := by
  rcases hfirst : x state with ⟨result, mid⟩
  cases result with
  | ok a => exact .inr ⟨a, mid, rfl, (Eval.bind_of_ok hfirst).symm.trans h⟩
  | error halt =>
      have hstop := (Eval.bind_of_error hfirst).symm.trans h
      cases outcome with
      | ok b => cases hstop
      | error fault =>
          cases hstop
          exact .inl ⟨fault, rfl, rfl⟩

theorem Expr.Ends.eventually {limit : Int} {e : Expr} {env after : Environment}
    {outcome : Except Fault Value} (h : e.Ends limit env outcome after) :
    ∃ fuel, ∀ more, fuel ≤ more →
      e.eval { fuel := more, maxRounds := limit.toNat } ⟨env, .never⟩ =
        (outcome.mapError .fault, ⟨after, .never⟩) := by
  rcases h with ⟨fuel, hrun⟩
  refine ⟨fuel, fun more hmore => ?_⟩
  have hstays := Expr.eval_of_le_fuel (by rw [hrun]; exact not_unfinished_mapError _) more hmore
  exact hstays.trans hrun

theorem Arms.picks_of_evalEqual {limit : Int} {q : Quantity} (fuel : Nat) :
    ∀ (arms : Arms) {env after : Environment} {outcome : Except Fault Value},
      arms.Numeric limit q env →
      arms.evalEqual { fuel, maxRounds := limit.toNat } (.number q) ⟨env, .never⟩ =
        (outcome.mapError .fault, ⟨after, .never⟩) →
      arms.Picks limit q env outcome after
  | .none, env, after, outcome, _, hrun => by
      rcases Prod.mk.inj hrun with ⟨houtcome, hafter⟩
      obtain rfl : env = after := congrArg State.env hafter
      obtain rfl : Except.ok Value.null = outcome := mapError_fault_inj houtcome
      exact .none
  | .otherwise body, _, _, _, _, hrun => by
      rw [Arms.evalEqual] at hrun
      exact .otherwise ⟨fuel, hrun⟩
  | .arm guard body rest, env, after, outcome, hnumeric, hrun => by
      have hopen := hrun
      rw [Arms.evalEqual] at hopen
      rcases Eval.bind_ends hopen with ⟨fault, rfl, hguard⟩ | ⟨v, state, hguard, -⟩
      · exact .failed ⟨fuel, hguard⟩
      · obtain ⟨mid, rfl⟩ := Expr.eval_never hguard
        have hends : guard.Ends limit env (.ok v) mid := ⟨fuel, hguard⟩
        rcases hnumeric.first hends with ⟨a, rfl⟩
        rw [Arms.evalEqual_of_number hguard] at hrun
        by_cases hsame : a.number.equal q.number
        · rw [if_pos hsame] at hrun
          exact .hit hends hsame ⟨fuel, hrun⟩
        · rw [if_neg hsame] at hrun
          have hmiss : a.number.equal q.number = false := by simpa using hsame
          exact .miss hends hmiss
            (Arms.picks_of_evalEqual fuel rest (hnumeric.later hends hmiss) hrun)

theorem Arms.Picks.eventually {limit : Int} {q : Quantity} {arms : Arms} {env after : Environment}
    {outcome : Except Fault Value} (h : arms.Picks limit q env outcome after) :
    ∃ fuel, ∀ more, fuel ≤ more →
      arms.evalEqual { fuel := more, maxRounds := limit.toNat } (.number q) ⟨env, .never⟩ =
        (outcome.mapError .fault, ⟨after, .never⟩) := by
  induction h with
  | none => exact ⟨0, fun _ _ => rfl⟩
  | otherwise hbody =>
      rcases hbody.eventually with ⟨fuel, hrun⟩
      exact ⟨fuel, fun more hmore => by rw [Arms.evalEqual, hrun more hmore]⟩
  | failed hguard =>
      rcases hguard.eventually with ⟨fuel, hrun⟩
      refine ⟨fuel, fun more hmore => ?_⟩
      rw [Arms.evalEqual, Eval.bind_of_error (hrun more hmore)]
      rfl
  | hit hguard hsame hbody =>
      rcases hguard.eventually with ⟨fuel, hrun⟩
      rcases hbody.eventually with ⟨fuel', hrun'⟩
      refine ⟨max fuel fuel', fun more hmore => ?_⟩
      rw [Arms.evalEqual_of_number (hrun more (by omega)), if_pos hsame, hrun' more (by omega)]
  | miss hguard hdiffers _ ih =>
      rcases hguard.eventually with ⟨fuel, hrun⟩
      rcases ih with ⟨fuel', hrun'⟩
      refine ⟨max fuel fuel', fun more hmore => ?_⟩
      rw [Arms.evalEqual_of_number (hrun more (by omega)), if_neg (by simp [hdiffers]),
        hrun' more (by omega)]

namespace Expr

/-- The first expression ends with a fault, or it ends with a value and then the second ends. -/
def EndsInTurn (limit : Int) (first second : Expr) (env : Environment)
    (outcome : Except Fault Value) (after : Environment) : Prop :=
  (∃ fault, outcome = .error fault ∧ first.Ends limit env (.error fault) after) ∨
    ∃ v mid, first.Ends limit env (.ok v) mid ∧ second.Ends limit mid outcome after

theorem endsInTurn_iff {limit : Int} {first second : Expr} {env after : Environment}
    {outcome : Except Fault Value} :
    EndsInTurn limit first second env outcome after ↔
      ∃ fuel, let budget : Budget := { fuel, maxRounds := limit.toNat }
        (first.eval budget >>= fun _ => second.eval budget) ⟨env, .never⟩ =
          (outcome.mapError .fault, ⟨after, .never⟩) := by
  constructor
  · rintro (⟨fault, rfl, fuel, hfirst⟩ | ⟨v, mid, hfirst, hsecond⟩)
    · exact ⟨fuel, Eval.bind_of_error hfirst⟩
    · rcases hfirst.eventually with ⟨fuel, hrun⟩
      rcases hsecond.eventually with ⟨fuel', hrun'⟩
      -- Both expressions have to end within the same number of rounds.
      refine ⟨max fuel fuel', ?_⟩
      exact (Eval.bind_of_ok (hrun _ (Nat.le_max_left _ _))).trans (hrun' _ (Nat.le_max_right _ _))
  · rintro ⟨fuel, hrun⟩
    rcases Eval.bind_ends hrun with ⟨fault, rfl, hfirst⟩ | ⟨v, state, hfirst, hsecond⟩
    · exact .inl ⟨fault, rfl, fuel, hfirst⟩
    · obtain ⟨mid, rfl⟩ := Expr.eval_never hfirst
      exact .inr ⟨v, mid, ⟨fuel, hfirst⟩, fuel, hsecond⟩

section Choices

variable {limit : Int} {pos : Position} {subject : Expr} {arms : Arms} {env : Environment}
  (hsubject : ∀ v mid, subject.Ends limit env (.ok v) mid → ∃ q, v = .number q)
  (harms : ∀ q mid, subject.Ends limit env (.ok (.number q)) mid → arms.Numeric limit q mid)

include hsubject harms

/-- A choice by equality among numbers: the subject is evaluated once, and then the arms are
tried. -/
theorem select_ends_iff {outcome : Except Fault Value} {after : Environment} :
    (Expr.select pos subject arms).Ends limit env outcome after ↔
      (∃ fault, outcome = .error fault ∧ subject.Ends limit env (.error fault) after) ∨
        ∃ q mid, subject.Ends limit env (.ok (.number q)) mid ∧
          arms.Picks limit q mid outcome after := by
  constructor
  · rintro ⟨fuel, hrun⟩
    rw [Expr.eval] at hrun
    rcases Eval.bind_ends hrun with ⟨fault, rfl, hfault⟩ | ⟨v, state, hvalue, hrest⟩
    · exact .inl ⟨fault, rfl, fuel, hfault⟩
    · obtain ⟨mid, rfl⟩ := Expr.eval_never hvalue
      have hends : subject.Ends limit env (.ok v) mid := ⟨fuel, hvalue⟩
      rcases hsubject v mid hends with ⟨q, rfl⟩
      exact .inr ⟨q, mid, hends, Arms.picks_of_evalEqual fuel arms (harms q mid hends) hrest⟩
  · rintro (⟨fault, rfl, fuel, hfault⟩ | ⟨q, mid, hends, hpicks⟩)
    · refine ⟨fuel, ?_⟩
      rw [Expr.eval, Eval.bind_of_error hfault]
      rfl
    · rcases hends.eventually with ⟨fuel, hrun⟩
      rcases hpicks.eventually with ⟨fuel', hrun'⟩
      refine ⟨max fuel fuel', ?_⟩
      rw [Expr.eval, Eval.bind_of_ok (hrun _ (Nat.le_max_left _ _))]
      exact hrun' _ (Nat.le_max_right _ _)

/-- Within one budget the choice by truth that follows the assignment does what the choice by
equality does, and leaves the same environment but for the name. -/
theorem eval_choose_after_assign {name : String} (hread : name ∉ arms.accessed)
    (hwritten : name ∉ arms.assigned) (namePos choosePos : Position) (place : Nat → Position)
    (fuel : Nat) :
    let budget : Budget := { fuel, maxRounds := limit.toNat }
    let inTurn : Eval Value := (Expr.assign name namePos subject).eval budget >>= fun _ =>
      (Expr.choose choosePos (arms.comparedTo name place)).eval budget
    ((Expr.select pos subject arms).eval budget ⟨env, .never⟩).1 = (inTurn ⟨env, .never⟩).1 ∧
      ((Expr.select pos subject arms).eval budget ⟨env, .never⟩).2.env.without name =
        (inTurn ⟨env, .never⟩).2.env.without name := by
  intro budget inTurn
  rcases hrun : subject.eval budget ⟨env, .never⟩ with ⟨outcome, state⟩
  obtain ⟨mid, rfl⟩ := Expr.eval_never hrun
  cases outcome with
  | error halt =>
      have hassign : (Expr.assign name namePos subject).eval budget ⟨env, .never⟩ =
          (.error halt, ⟨mid, .never⟩) := by
        rw [Expr.eval, Eval.bind_of_error hrun]
      have hinTurn : inTurn ⟨env, .never⟩ = (.error halt, ⟨mid, .never⟩) :=
        Eval.bind_of_error hassign
      rw [Expr.eval, Eval.bind_of_error hrun, hinTurn]
      exact ⟨rfl, rfl⟩
  | ok v =>
      have hends : subject.Ends limit env (.ok v) mid := ⟨fuel, hrun⟩
      rcases hsubject v mid hends with ⟨q, rfl⟩
      have hassign : (Expr.assign name namePos subject).eval budget ⟨env, .never⟩ =
          (.ok (.number q), ⟨mid.set name q, .never⟩) := by
        rw [Expr.eval, Eval.bind_of_ok hrun]
        rfl
      have hinTurn : inTurn ⟨env, .never⟩ =
          (arms.comparedTo name place).evalTrue budget ⟨mid.set name q, .never⟩ := by
        refine (Eval.bind_of_ok hassign).trans ?_
        rw [Expr.eval]
      rw [Expr.eval, Eval.bind_of_ok hrun, hinTurn]
      rcases Arms.evalTrue_comparedTo fuel arms place hread hwritten (holding_set mid name q)
        (harms q mid hends) with ⟨houtcome, hafter⟩
      exact ⟨houtcome, hafter.same⟩

end Choices

/-- A choice by equality whose subject, and every guard of it that is evaluated, is a number or
fails, and a name that does not occur in it. The choice ends with an outcome exactly when the
following does: the subject is assigned to the name, and then the same arms are tried by truth, each
guard compared with the name. Whenever both end, the outcomes are the same, and so are the
environments but for the name. And the choice ends in one way only: the subject is evaluated once,
then the guards in order up to the first that fails or is the same number, then the body of this one
and no other. -/
theorem select_iff_choose {limit : Int} {subject : Expr} {arms : Arms} {env : Environment}
    {name : String} (pos : Position) (hread : name ∉ (Expr.select pos subject arms).accessed)
    (hwritten : name ∉ (Expr.select pos subject arms).assigned)
    (hsubject : ∀ v mid, subject.Ends limit env (.ok v) mid → ∃ q, v = .number q)
    (harms : ∀ q mid, subject.Ends limit env (.ok (.number q)) mid →
      ∀ guard there, arms.Tries limit q mid guard there →
        ∀ v last, guard.Ends limit there (.ok v) last → ∃ a, v = .number a)
    (namePos choosePos : Position) (place : Nat → Position) :
    let select : Expr := .select pos subject arms
    let assign : Expr := .assign name namePos subject
    let choose : Expr := .choose choosePos (arms.comparedTo name place)
    (∀ outcome, (∃ after, select.Ends limit env outcome after) ↔
        ∃ after', EndsInTurn limit assign choose env outcome after') ∧
      (∀ outcome outcome' after after', select.Ends limit env outcome after →
        EndsInTurn limit assign choose env outcome' after' →
        outcome = outcome' ∧ after.without name = after'.without name) ∧
      ∀ outcome after, select.Ends limit env outcome after ↔
        (∃ fault, outcome = .error fault ∧ subject.Ends limit env (.error fault) after) ∨
          ∃ q mid, subject.Ends limit env (.ok (.number q)) mid ∧
            arms.Picks limit q mid outcome after := by
  intro select assign choose
  have hreadArms : name ∉ arms.accessed := fun h => hread (List.mem_append_right _ h)
  have hwrittenArms : name ∉ arms.assigned := fun h => hwritten (List.mem_append_right _ h)
  have hsame := @eval_choose_after_assign limit pos subject arms env hsubject harms name hreadArms
    hwrittenArms namePos choosePos place
  -- An end in turn is an end of the choice by equality, with as many rounds.
  have hselect {outcome : Except Fault Value} {after' : Environment}
      (h : EndsInTurn limit assign choose env outcome after') :
      ∃ after, select.Ends limit env outcome after ∧ after.without name = after'.without name := by
    rcases endsInTurn_iff.1 h with ⟨fuel, hrun⟩
    rcases hsame fuel with ⟨houtcome, hafter⟩
    rcases hchosen : select.eval { fuel, maxRounds := limit.toNat } ⟨env, .never⟩ with
      ⟨outcome', state⟩
    obtain ⟨after, rfl⟩ := Expr.eval_never hchosen
    rw [hrun, hchosen] at houtcome hafter
    obtain rfl : outcome' = _ := houtcome
    exact ⟨after, ⟨fuel, hchosen⟩, hafter⟩
  refine ⟨fun outcome => ⟨?_, ?_⟩, ?_, fun outcome after => select_ends_iff hsubject harms⟩
  · rintro ⟨after, fuel, hrun⟩
    have houtcome := (hsame fuel).1
    let budget : Budget := { fuel, maxRounds := limit.toNat }
    rcases hturn : (assign.eval budget >>= fun _ => choose.eval budget) ⟨env, .never⟩ with
      ⟨outcome', state⟩
    rw [hrun, hturn] at houtcome
    obtain rfl : _ = outcome' := houtcome
    have hkeeps := (assign.eval_keepsNever budget).bind fun _ => choose.eval_keepsNever budget
    obtain ⟨after', rfl⟩ := hkeeps.exists_env hturn
    exact ⟨after', endsInTurn_iff.2 ⟨fuel, hturn⟩⟩
  · rintro ⟨after', h⟩
    exact (hselect h).imp fun _ hends => hends.1
  · intro outcome outcome' after after' h h'
    rcases hselect h' with ⟨last, hlast, hafter⟩
    rcases h.unique hlast with ⟨rfl, rfl⟩
    exact ⟨rfl, hafter⟩

/-- Two arms, of which the first binds a variable that the second reads: with two for a subject,
`y = 1` misses and `y + 1` hits. -/
theorem select_iff_choose_counted :
    let arms : Arms := .arm (.assign "y" ⟨1, 15⟩ (.num (.int 1) ⟨1, 19⟩)) (.num (.int 7) ⟨1, 23⟩)
      (.arm (.binary ⟨.plus, "+"⟩ (.var "y" ⟨1, 30⟩) (.num (.int 1) ⟨1, 34⟩)) (.var "y" ⟨1, 38⟩)
        .none)
    let select : Expr := .select ⟨1, 1⟩ (.var "x" ⟨1, 8⟩) arms
    let assign : Expr := .assign "t" ⟨1, 1⟩ (.var "x" ⟨1, 5⟩)
    let choose : Expr := .choose ⟨2, 1⟩ (arms.comparedTo "t" fun i => ⟨i + 2, 14⟩)
    let env := Environment.global.set "x" ⟨.int 2, .nowhere⟩
    let one : Quantity := ⟨.int 1, ⟨1, 19⟩⟩
    "t" ∉ select.accessed ∧ "t" ∉ select.assigned ∧
      ∃ after after', select.Ends 0 env (.ok (.number one)) after ∧
        EndsInTurn 0 assign choose env (.ok (.number one)) after' ∧
        after.without "t" = after'.without "t" := by
  intro arms select assign choose env one
  let two : Quantity := ⟨.int 2, .nowhere⟩
  have hread : "t" ∉ select.accessed := by
    simp [select, arms, Expr.accessed, Arms.accessed]
  have hwritten : "t" ∉ select.assigned := by
    simp [select, arms, Expr.assigned, Arms.assigned]
  have hx : (Expr.var "x" ⟨1, 8⟩).Ends 0 env (.ok (.number two)) env := ⟨0, rfl⟩
  have hfirst : (Expr.assign "y" ⟨1, 15⟩ (.num (.int 1) ⟨1, 19⟩)).Ends 0 env (.ok (.number one))
      (env.set "y" one) := ⟨0, rfl⟩
  have hsecond : (Expr.binary ⟨.plus, "+"⟩ (.var "y" ⟨1, 30⟩) (.num (.int 1) ⟨1, 34⟩)).Ends 0
      (env.set "y" one) (.ok (.number two)) (env.set "y" one) := ⟨0, rfl⟩
  have hends : select.Ends 0 env (.ok (.number one)) (env.set "y" one) := ⟨0, rfl⟩
  have hsubject : ∀ v mid, (Expr.var "x" ⟨1, 8⟩).Ends 0 env (.ok v) mid → ∃ q, v = .number q :=
    fun v mid h => ⟨two, Except.ok.inj (h.unique hx).1⟩
  have harms : ∀ q mid, (Expr.var "x" ⟨1, 8⟩).Ends 0 env (.ok (.number q)) mid →
      ∀ guard there, arms.Tries 0 q mid guard there →
        ∀ v last, guard.Ends 0 there (.ok v) last → ∃ a, v = .number a := by
    intro q mid h guard there htries v last hguard
    rcases h.unique hx with ⟨hq, rfl⟩
    cases hq
    -- Only the two guards are evaluated, each where the ones before it end.
    dsimp only [arms] at htries
    cases htries with
    | first => exact ⟨one, Except.ok.inj (hguard.unique hfirst).1⟩
    | later hmissed _ hrest =>
        rcases hmissed.unique hfirst with ⟨-, rfl⟩
        cases hrest with
        | first => exact ⟨two, Except.ok.inj (hguard.unique hsecond).1⟩
        | later _ _ hnone => cases hnone
  rcases select_iff_choose ⟨1, 1⟩ hread hwritten hsubject harms ⟨1, 1⟩ ⟨2, 1⟩
    (fun i => ⟨i + 2, 14⟩) with ⟨hiff, hsame, -⟩
  rcases (hiff _).1 ⟨_, hends⟩ with ⟨after', hafter'⟩
  exact ⟨hread, hwritten, _, after', hends, hafter', (hsame _ _ _ _ hends hafter').2⟩

end Expr
end Reckoner
