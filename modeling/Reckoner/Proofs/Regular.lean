import Reckoner.Proofs.Comparison
import Reckoner.Proofs.Operations
import Reckoner.Proofs.Written

/-!
# Evaluating what tokens write

A tree that tokens wrote never meets a list where a number is needed, nor an operator without a
meaning. Its value is a number or nothing, and the faults that remain are few. Each is reported at a
spot of the tokens, or at the origin of a number that was in the environment before.

* `Environment.Origins` — where the numbers of an environment come from;
* `Value.IsPlain` — nothing, or a number;
* `Cause.OfEvaluation` — the causes of faults that remain;
* `regular` — the likeness of evaluations that keep to all this;
* `Expr.eval_regular` — evaluation with whatever branches keeps to it.
-/

namespace Reckoner

/-! ## Environments -/

theorem Bindings.mem_of_get? {α : Type} {b : Bindings α} {name : String} {a : α}
    (h : b.get? name = some a) : (name, a) ∈ b := by
  induction b with
  | nil => cases h
  | cons binding b ih =>
      rcases binding with ⟨n, old⟩
      rw [Bindings.get?] at h
      split at h
      · next hn =>
        cases h
        rw [hn]
        exact List.mem_cons_self
      · exact List.mem_cons_of_mem _ (ih h)

theorem Bindings.eq_or_mem_of_mem_set {α : Type} {b : Bindings α} {name : String} {a : α}
    {binding : String × α} (h : binding ∈ b.set name a) : binding.2 = a ∨ binding ∈ b := by
  induction b with
  | nil =>
      rw [Bindings.set, List.mem_singleton] at h
      exact .inl (congrArg Prod.snd h)
  | cons first b ih =>
      rcases first with ⟨n, old⟩
      rw [Bindings.set] at h
      split at h
      · rcases List.mem_cons.1 h with rfl | hrest
        · exact .inl rfl
        · exact .inr (List.mem_cons_of_mem _ hrest)
      · rcases List.mem_cons.1 h with rfl | hrest
        · exact .inr List.mem_cons_self
        · exact (ih hrest).imp_right (List.mem_cons_of_mem _)

/-- All numbers that are bound have origins of some sort. -/
def Environment.Origins (P : Position → Prop) (env : Environment) : Prop :=
  ∀ frame ∈ env.frames, ∀ binding ∈ frame, P binding.2.origin

namespace Environment.Origins

variable {P : Position → Prop} {env : Environment}

theorem mono {Q : Position → Prop} (h : env.Origins P) (hPQ : ∀ p, P p → Q p) : env.Origins Q :=
  fun frame hframe binding hbinding => hPQ _ (h frame hframe binding hbinding)

theorem of_get? (h : env.Origins P) {name : String} {q : Quantity} (hq : env.get? name = some q) :
    P q.origin := by
  rcases List.exists_of_findSome?_eq_some hq with ⟨frame, hframe, hget⟩
  exact h frame hframe _ (Bindings.mem_of_get? hget)

theorem set (h : env.Origins P) (name : String) {q : Quantity} (hq : P q.origin) :
    (env.set name q).Origins P := by
  intro frame hframe binding hbinding
  rcases List.mem_cons.1 hframe with rfl | houter
  · rcases Bindings.eq_or_mem_of_mem_set hbinding with hnew | hold
    · rwa [hnew]
    · exact h _ List.mem_cons_self binding hold
  · exact h frame (List.mem_cons_of_mem _ houter) binding hbinding

end Environment.Origins

/-! ## Values and faults -/

/-- Nothing, or a number with an origin of some sort. -/
def Value.IsPlain (P : Position → Prop) : Value → Prop
  | .null => True
  | .number q => P q.origin
  | .list _ => False

/-- Why the evaluation of a parsed program may stop. A right operand without a value is no fault. -/
inductive Cause.OfEvaluation : Cause → Prop where
  | undefined (name : String) : OfEvaluation (.undefined name)
  | divisionByZero : OfEvaluation .divisionByZero
  | noValue {role : Role} : role ≠ .right → OfEvaluation (.noValue role)
  | tooManyRounds (limit : Nat) : OfEvaluation (.tooManyRounds limit)
  | timedOut : OfEvaluation .timedOut
  | canceled : OfEvaluation .canceled

theorem Interrupt.ofEvaluation (why : Interrupt) : why.cause.OfEvaluation := by
  cases why with
  | timedOut => exact .timedOut
  | canceled => exact .canceled

/-- The position is a spot of the tokens, or a known origin of some sort. -/
def Reported (ts : List Token) (P : Position → Prop) (p : Position) : Prop :=
  Spot ts p ∨ (p.isKnown ∧ P p)

/-- The evaluation stops for one of the remaining causes and at a place it may be reported at. -/
def Halt.IsRegular (ts : List Token) (P : Position → Prop) : Halt → Prop
  | .fault f => f.cause.OfEvaluation ∧ Reported ts P f.pos
  | .unfinished pos => Spot ts pos

/-! ## Operators -/

/-- Every operator of the grammar has a meaning, so that other branches make no difference to it: it
makes a new number, or the divisor is zero. -/
theorem Operator.IsBinary.apply_cases {op : Operator} (h : op.IsBinary) {branches : Branches}
    (hdivides : branches.Divides) (a b : Number) :
    op.applyBy branches a b = op.apply a b ∧
      ((∃ n, op.apply a b = .ok (.ofNumber n)) ∨ op.apply a b = .error .divisionByZero) := by
  obtain ⟨level, t, hjoins, rfl⟩ := h
  unfold Operator.applyBy Operator.apply
  cases hjoins with
  | logic hword =>
      rcases hword with hand | hor
      · obtain ⟨hkind, hliteral⟩ := Parser.isKeyword_iff.1 hand
        simp [Token.operator, hkind, hliteral, Value.ofBool]
      · obtain ⟨hkind, hliteral⟩ := Parser.isKeyword_iff.1 hor
        simp [Token.operator, hkind, hliteral, Value.ofBool]
  | comparison hkind =>
      simp only [List.mem_cons, List.not_mem_nil, or_false] at hkind
      rcases hkind with hkind | hkind | hkind | hkind | hkind | hkind <;>
        simp [Token.operator, hkind, Value.ofBool]
  | sum hkind =>
      simp only [List.mem_cons, List.not_mem_nil, or_false] at hkind
      rcases hkind with hkind | hkind | hkind
      · simp [Token.operator, hkind]
      · simp [Token.operator, hkind]
      · cases hzero : b.isZero with
        | true => simp [Token.operator, hkind]
        | false => simp [Token.operator, hkind, hdivides.mod a b hzero]
  | product hkind =>
      simp only [List.mem_cons, List.not_mem_nil, or_false] at hkind
      rcases hkind with hkind | hkind
      · simp [Token.operator, hkind]
      · cases hzero : b.isZero with
        | true => simp [Token.operator, hkind]
        | false => simp [Token.operator, hkind, hdivides.div a b hzero]
  | power hkind => simp [Token.operator, hkind]

/-- A sign and a `not` have a meaning: they leave the number or make a new one. -/
theorem Operator.IsUnary.applyUnary_cases {op : Operator} (h : op.IsUnary) (branches : Branches)
    (q : Quantity) :
    op.applyUnaryBy branches q = op.applyUnary q ∧
      (op.applyUnary q = .number q ∨ ∃ n, op.applyUnary q = .ofNumber n) := by
  unfold Operator.applyUnaryBy Operator.applyUnary
  rcases h with hplus | hminus | rfl
  · simp [hplus]
  · simp [hminus]
  · cases htrue : q.isTrue <;> simp

/-! ## Computations -/

/-- The same answer twice, with a property. -/
def Kept {α : Type} (Q : α → Prop) (a b : α) : Prop :=
  a = b ∧ Q a

/-- The same environments, in which numbers have origins of some sort, and the same regular reasons
to stop. -/
def regular (ts : List Token) (P : Position → Prop) : Likeness where
  envs := Kept (·.Origins P)
  halts := Kept (·.IsRegular ts P)

/-- Both computations answer with the same plain value. -/
abbrev AlikePlain (ts : List Token) (P : Position → Prop) (x y : Eval Value) : Prop :=
  Alike (regular ts P) (Kept (·.IsPlain P)) x y

namespace Alike

variable {ts : List Token} {P : Position → Prop} {α β : Type}

theorem bind_kept {l : Likeness} {Q : α → Prop} {s : β → β → Prop} {x y : Eval α}
    {f g : α → Eval β} (hx : Alike l (Kept Q) x y) (hf : ∀ a, Q a → Alike l s (f a) (g a)) :
    Alike l s (x >>= f) (y >>= g) := by
  refine .bind hx ?_
  rintro a b ⟨rfl, ha⟩
  exact hf a ha

theorem pure_kept {l : Likeness} {Q : α → Prop} {a : α} (h : Q a) :
    Alike l (Kept Q) (Pure.pure a) (Pure.pure a) :=
  .pure ⟨rfl, h⟩

theorem fail_regular {r : α → β → Prop} {cause : Cause} {pos : Position}
    (hcause : cause.OfEvaluation) (hpos : Reported ts P pos) :
    Alike (regular ts P) r (Eval.fail cause pos) (Eval.fail cause pos) :=
  .fail ⟨rfl, hcause, hpos⟩

theorem get?_regular (name : String) :
    Alike (regular ts P) (Kept fun q? => ∀ q ∈ q?, P q.origin) (Eval.get? name)
      (Eval.get? name) := by
  refine .get? ?_
  rintro env _ ⟨rfl, henv⟩
  exact ⟨rfl, fun q hq => henv.of_get? hq⟩

theorem set_regular (name : String) {q : Quantity} (hq : P q.origin) :
    Alike (regular ts P) (Kept fun _ => True) (Eval.set name q) (Eval.set name q) := by
  refine (Alike.set ?_).mono fun _ _ hsame => ⟨hsame, trivial⟩
  rintro env _ ⟨rfl, henv⟩
  exact ⟨rfl, henv.set name hq⟩

theorem number_regular (branches : Branches) (budget : Budget) {role : Role} (hrole : role ≠ .right)
    {e : Expr} (hspot : Spot ts e.pos) {v : Value} (hv : v.IsPlain P) :
    Alike (regular ts P) (Kept fun q => P q.origin) (Eval.number role e v)
      ((Operations.branching branches budget).number role e v) := by
  cases v with
  | null => exact .fail_regular (.noValue hrole) (.inl hspot)
  | number q => exact .pure_kept hv
  | list items => exact hv.elim

end Alike

/-! ## Expressions -/

/-- Origins of this sort include those of the numerals, and that of a number written nowhere. -/
structure CoversNumerals (P : Position → Prop) (ts : List Token) : Prop where
  nowhere : P .nowhere
  numeral : ∀ t ∈ ts, t.IsNumeral → P t.pos

section Trees

variable {ts : List Token} {P : Position → Prop} {branches : Branches}

mutual

/-- Evaluating a tree from tokens keeps to what is regular, and other branches would make no
difference. -/
theorem Expr.eval_regular (hP : CoversNumerals P ts) (hdivides : branches.Divides)
    (budget : Budget) :
    ∀ e : Expr, (∀ part ∈ e.parts, part.IsFrom ts) →
      AlikePlain ts P (e.eval budget) (e.evalWith (.branching branches budget))
  | .num value pos, hparts => by
      obtain ⟨t, ht, hnumeral, rfl⟩ := (List.forall_mem_cons.1 hparts).1
      exact .pure_kept (hP.numeral t ht hnumeral)
  | .var name pos, hparts => by
      rw [Expr.eval, Expr.evalWith]
      refine .bind_kept (.get?_regular name) ?_
      intro q? hq
      cases q? with
      | none => exact .fail_regular (.undefined name) (.inl (Expr.spot_pos _ hparts))
      | some q => exact .pure_kept (hq q rfl)
  | .assign name pos value, hparts => by
      rw [Expr.eval, Expr.evalWith]
      have hvalue := (List.forall_mem_cons.1 hparts).2
      refine .bind_kept (Expr.eval_regular hP hdivides budget value hvalue) ?_
      intro v hv
      cases v with
      | null => exact .fail_regular (.undefined name) (.inl (Expr.spot_pos _ hparts))
      | number q => exact .bind_kept (.set_regular name hv) fun _ _ => .pure_kept hv
      | list items => exact hv.elim
  | .binary op left right, hparts => by
      have ⟨hop, hoperands⟩ := List.forall_mem_cons.1 hparts
      have ⟨hleft, hright⟩ := List.forall_mem_append.1 hoperands
      rw [Expr.eval, Expr.evalWith]
      refine .bind_kept (Expr.eval_regular hP hdivides budget left hleft) fun u hu => ?_
      refine .bind_kept (.number_regular branches budget (by simp) (Expr.spot_pos left hleft) hu)
        fun a _ => ?_
      refine .bind_kept (Expr.eval_regular hP hdivides budget right hright) ?_
      intro v hv
      cases v with
      | null => exact .pure_kept trivial
      | list items => exact hv.elim
      | number b =>
          have ⟨hsame, hcases⟩ := Operator.IsBinary.apply_cases hop hdivides a.number b.number
          dsimp only [Operations.branching]
          rw [hsame]
          rcases hcases with ⟨n, hn⟩ | hzero
          · rw [hn]
            exact .pure_kept hP.nowhere
          · rw [hzero]
            refine .fail_regular .divisionByZero ?_
            -- The divisor's own place, if it is known, is an origin.
            unfold operandPos
            split
            · next hknown => exact .inr ⟨hknown, hv⟩
            · exact .inl (Expr.spot_pos right hright)
  | .unary op operand, hparts => by
      have ⟨hop, hoperand⟩ := List.forall_mem_cons.1 hparts
      rw [Expr.eval, Expr.evalWith]
      refine .bind_kept (Expr.eval_regular hP hdivides budget operand hoperand) fun v hv => ?_
      have hspot := Expr.spot_pos operand hoperand
      refine .bind_kept (.number_regular branches budget (by simp) hspot hv) fun q hq => ?_
      have ⟨hsame, hcases⟩ := Operator.IsUnary.applyUnary_cases hop branches q
      dsimp only [Operations.branching]
      rw [hsame]
      rcases hcases with hkept | ⟨n, hn⟩
      · rw [hkept]
        exact .pure_kept hq
      · rw [hn]
        exact .pure_kept hP.nowhere
  | .sequence statements, hparts => (List.forall_mem_cons.1 hparts).1.elim
  | .choose pos arms, hparts => by
      rw [Expr.eval, Expr.evalWith]
      exact Arms.evalTrue_regular hP hdivides budget arms (List.forall_mem_cons.1 hparts).2
  | .select pos subject arms, hparts => by
      have ⟨hsubject, harms⟩ := List.forall_mem_append.1 (List.forall_mem_cons.1 hparts).2
      rw [Expr.eval, Expr.evalWith]
      refine .bind_kept (Expr.eval_regular hP hdivides budget subject hsubject) fun v _ => ?_
      exact Arms.evalEqual_regular hP hdivides budget arms harms v
  | .loop pos condition body, hparts => by
      have ⟨hcondition, hbody⟩ := List.forall_mem_append.1 (List.forall_mem_cons.1 hparts).2
      have hspot : Spot ts pos := Expr.spot_pos _ hparts
      rw [Expr.eval, Expr.evalWith]
      have hfault {cause : Cause} (hcause : cause.OfEvaluation) :
          (regular ts P).halts (.fault ⟨cause, pos⟩) (.fault ⟨cause, pos⟩) :=
        ⟨rfl, hcause, .inl hspot⟩
      refine .rounds (fun why => hfault why.ofEvaluation)
        (fun limit => hfault (.tooManyRounds limit)) ⟨rfl, hspot⟩ ?_
        (Expr.evalLast_regular hP hdivides budget body hbody .null trivial) _ _ ⟨rfl, trivial⟩
      refine .bind_kept (Expr.eval_regular hP hdivides budget condition hcondition) fun v hv => ?_
      refine Alike.mono
        (.number_regular branches budget (by simp) (Expr.spot_pos condition hcondition) hv) ?_
      rintro q _ ⟨rfl, -⟩
      rfl

theorem Expr.evalAll_regular (hP : CoversNumerals P ts) (hdivides : branches.Divides)
    (budget : Budget) :
    ∀ es : List Expr, (∀ part ∈ Expr.partsAll es, part.IsFrom ts) →
      Alike (regular ts P) (Kept fun vs => ∀ v ∈ vs, v.IsPlain P) (Expr.evalAll budget es)
        (Expr.evalAllBy branches budget es)
  | [], _ => .pure_kept (by simp)
  | e :: rest, hparts => by
      have ⟨he, hrest⟩ := List.forall_mem_append.1 hparts
      rw [Expr.evalAll, Expr.evalAllBy, Expr.evalAllWith]
      refine .bind_kept (Expr.eval_regular hP hdivides budget e he) fun v hv => ?_
      refine .bind_kept (Expr.evalAll_regular hP hdivides budget rest hrest) fun vs hvs => ?_
      exact .pure_kept (List.forall_mem_cons.2 ⟨hv, hvs⟩)

theorem Expr.evalLast_regular (hP : CoversNumerals P ts) (hdivides : branches.Divides)
    (budget : Budget) :
    ∀ es : List Expr, (∀ part ∈ Expr.partsAll es, part.IsFrom ts) →
      ∀ last : Value, last.IsPlain P →
        AlikePlain ts P (Expr.evalLast budget es last)
          (Expr.evalLastWith (.branching branches budget) es last)
  | [], _, _, hlast => .pure_kept hlast
  | e :: rest, hparts, _, _ => by
      have ⟨he, hrest⟩ := List.forall_mem_append.1 hparts
      rw [Expr.evalLast, Expr.evalLastWith]
      refine .bind_kept (Expr.eval_regular hP hdivides budget e he) fun v hv => ?_
      exact Expr.evalLast_regular hP hdivides budget rest hrest v hv

theorem Arms.evalTrue_regular (hP : CoversNumerals P ts) (hdivides : branches.Divides)
    (budget : Budget) :
    ∀ arms : Arms, (∀ part ∈ arms.parts, part.IsFrom ts) →
      AlikePlain ts P (arms.evalTrue budget) (arms.evalTrueWith (.branching branches budget))
  | .none, _ => .pure_kept trivial
  | .otherwise body, hparts => by
      rw [Arms.evalTrue, Arms.evalTrueWith]
      exact Expr.eval_regular hP hdivides budget body hparts
  | .arm guard body rest, hparts => by
      have ⟨hfirst, hrest⟩ := List.forall_mem_append.1 hparts
      have ⟨hguard, hbody⟩ := List.forall_mem_append.1 hfirst
      rw [Arms.evalTrue, Arms.evalTrueWith]
      refine .bind_kept (Expr.eval_regular hP hdivides budget guard hguard) fun v hv => ?_
      refine .bind_kept (.number_regular branches budget (by simp) (Expr.spot_pos guard hguard) hv)
        fun q _ => ?_
      exact .ite Iff.rfl (Expr.eval_regular hP hdivides budget body hbody)
        (Arms.evalTrue_regular hP hdivides budget rest hrest)

theorem Arms.evalEqual_regular (hP : CoversNumerals P ts) (hdivides : branches.Divides)
    (budget : Budget) :
    ∀ arms : Arms, (∀ part ∈ arms.parts, part.IsFrom ts) → ∀ subject : Value,
      AlikePlain ts P (arms.evalEqual budget subject)
        (arms.evalEqualWith (.branching branches budget) subject)
  | .none, _, _ => .pure_kept trivial
  | .otherwise body, hparts, _ => by
      rw [Arms.evalEqual, Arms.evalEqualWith]
      exact Expr.eval_regular hP hdivides budget body hparts
  | .arm guard body rest, hparts, subject => by
      have ⟨hfirst, hrest⟩ := List.forall_mem_append.1 hparts
      have ⟨hguard, hbody⟩ := List.forall_mem_append.1 hfirst
      rw [Arms.evalEqual, Arms.evalEqualWith]
      refine .bind_kept (Expr.eval_regular hP hdivides budget guard hguard) fun v _ => ?_
      exact .ite Iff.rfl (Expr.eval_regular hP hdivides budget body hbody)
        (Arms.evalEqual_regular hP hdivides budget rest hrest subject)

end

end Trees
end Reckoner
