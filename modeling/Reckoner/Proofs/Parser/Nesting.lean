import Reckoner.Proofs.Parser.Following

/-!
# The limit on nesting

The parser with a counter does what the parser does that passes the depth down. A production that
answers leaves the counter as it found it. And a limit changes nothing as long as the counter of
the parse without a limit stays within it; otherwise the parse fails where the counter first goes
beyond the limit.

* `Gauged` — a walk for every limit, against the walk without one;
* `Gauged.bind`, `Gauged.nested` and their companions — the rules for it;
* `GaugedCalls`, `gauged` — the productions, whatever the number of calls;
* `Program.ofTokens_of_limit` — the threshold of the limit.
-/

namespace Reckoner

/-- The fault is one of the grammar, or a request to exit. -/
def Fault.Ordinary (fault : Fault) : Prop :=
  fault.code = .grammar ∨ fault.code = .exit

namespace Parser

/-! ## Walks with limits -/

/-- A walk that is given the limit, and what the counter of the walk without one says of it. -/
structure Gauged {α : Type} (x : Nat → Walk α) : Prop where
  /-- An answer leaves the counter as it was. -/
  restores : ∀ limit tokens c a after, x limit tokens c = some (.ok a, after) →
    after.depth = c.depth
  grows : ∀ tokens c outcome after, x 0 tokens c = some (outcome, after) → c.peak ≤ after.peak
  /-- A limit that the counter stays within changes nothing. -/
  of_peak_le : ∀ limit tokens c outcome after, x 0 tokens c = some (outcome, after) →
    after.peak ≤ limit → x limit tokens c = some (outcome, after)
  /-- A limit that the counter goes beyond is a fault. -/
  of_lt_peak : ∀ limit tokens c outcome after, x 0 tokens c = some (outcome, after) →
    0 < limit → c.peak ≤ limit → limit < after.peak →
    ∃ pos beyond, x limit tokens c = some (.error ⟨.tooDeep limit, pos⟩, beyond)
  /-- Without a limit there are no faults but those of the grammar and requests to exit. -/
  faults : ∀ tokens c fault after, x 0 tokens c = some (.error fault, after) → fault.Ordinary

namespace Gauged

variable {α β : Type}

/-- A walk that knows nothing of the limit and leaves the counter as it is. -/
theorem of_steady {x : Walk α}
    (hsteady : ∀ tokens c outcome after, x tokens c = some (outcome, after) →
      after.depth = c.depth ∧ after.peak = c.peak ∧ ∀ fault, outcome = .error fault →
        fault.Ordinary) : Gauged fun _ => x where
  restores _ tokens c a after h := (hsteady tokens c _ after h).1
  grows tokens c outcome after h := Nat.le_of_eq (hsteady tokens c outcome after h).2.1.symm
  of_peak_le _ _ _ _ _ h _ := h
  of_lt_peak limit tokens c outcome after h _ hbefore hover := by
    have hpeak := (hsteady tokens c outcome after h).2.1
    omega
  faults tokens c fault after h := (hsteady tokens c _ after h).2.2 fault rfl

theorem stuck : Gauged fun _ => (Walk.stuck : Walk α) :=
  of_steady fun _ _ _ _ h => by cases h

theorem lift {o : Except Fault α} (h : ∀ fault, o = .error fault → fault.Ordinary) :
    Gauged fun _ => Walk.lift o := by
  refine of_steady fun tokens c outcome after hrun => ?_
  cases hrun
  exact ⟨rfl, rfl, h⟩

theorem pure (a : α) : Gauged fun _ => (Pure.pure a : Walk α) := by
  have hlift : Gauged fun _ => Walk.lift (.ok a) := lift fun fault hfault => by cases hfault
  exact hlift

theorem fail {fault : Fault} (h : fault.Ordinary) :
    Gauged fun _ => (Walk.lift (.error fault) : Walk α) := by
  refine lift fun other hother => ?_
  cases hother
  exact h

theorem look {f : List Token → Cursor → Option Token} :
    Gauged fun _ => (fun tokens c => (f tokens c).map fun t => (.ok t, c) : Walk Token) := by
  refine of_steady fun tokens c outcome after hrun => ?_
  cases hlook : f tokens c with
  | none => simp [hlook] at hrun
  | some t =>
      simp only [hlook, Option.map_some, Option.some.injEq, Prod.mk.injEq] at hrun
      obtain ⟨rfl, rfl⟩ := hrun
      exact ⟨rfl, rfl, fun fault hfault => by cases hfault⟩

theorem current : Gauged fun _ => Walk.current :=
  look (f := fun tokens c => tokens[c.pos]?)

theorem peek : Gauged fun _ => Walk.peek :=
  look (f := fun tokens c => tokens[c.pos + 1]?.or tokens.getLast?)

theorem skip : Gauged fun _ => Walk.skip := by
  refine of_steady fun tokens c outcome after hrun => ?_
  unfold Walk.skip at hrun
  rcases Option.map_eq_some_iff.1 hrun with ⟨t, -, hmoved⟩
  cases hmoved
  exact ⟨rfl, rfl, fun fault hfault => by cases hfault⟩

theorem bind {x : Nat → Walk α} {f : Nat → α → Walk β} (hx : Gauged x)
    (hf : ∀ a, Gauged fun limit => f limit a) : Gauged fun limit => x limit >>= f limit where
  restores limit tokens c b after h := by
    rcases Walk.bind_eq_some h with ⟨a, mid, hfirst, hthen⟩ | ⟨fault, -, hfault⟩
    · rw [(hf a).restores limit tokens mid b after hthen, hx.restores limit tokens c a mid hfirst]
    · cases hfault
  grows tokens c outcome after h := by
    rcases Walk.bind_eq_some h with ⟨a, mid, hfirst, hthen⟩ | ⟨fault, hfirst, -⟩
    · exact Nat.le_trans (hx.grows tokens c _ mid hfirst) ((hf a).grows tokens mid _ after hthen)
    · exact hx.grows tokens c _ after hfirst
  of_peak_le limit tokens c outcome after h hpeak := by
    rcases Walk.bind_eq_some h with ⟨a, mid, hfirst, hthen⟩ | ⟨fault, hfirst, rfl⟩
    · -- The greatest value so far is no greater than the one at the end.
      have hmid := Nat.le_trans ((hf a).grows tokens mid _ after hthen) hpeak
      rw [Walk.bind_of_ok (hx.of_peak_le limit tokens c _ mid hfirst hmid)]
      exact (hf a).of_peak_le limit tokens mid _ after hthen hpeak
    · exact Walk.bind_of_error (hx.of_peak_le limit tokens c _ after hfirst hpeak)
  of_lt_peak limit tokens c outcome after h hlimit hbefore hpeak := by
    rcases Walk.bind_eq_some h with ⟨a, mid, hfirst, hthen⟩ | ⟨fault, hfirst, -⟩
    · by_cases hmid : mid.peak ≤ limit
      · -- The counter goes beyond the limit after the first walk, which is the same with it.
        rw [Walk.bind_of_ok (hx.of_peak_le limit tokens c _ mid hfirst hmid)]
        exact (hf a).of_lt_peak limit tokens mid _ after hthen hlimit hmid hpeak
      · obtain ⟨pos, beyond, hfault⟩ :=
          hx.of_lt_peak limit tokens c _ mid hfirst hlimit hbefore (Nat.lt_of_not_le hmid)
        exact ⟨pos, beyond, Walk.bind_of_error hfault⟩
    · obtain ⟨pos, beyond, hfault⟩ :=
        hx.of_lt_peak limit tokens c _ after hfirst hlimit hbefore hpeak
      exact ⟨pos, beyond, Walk.bind_of_error hfault⟩
  faults tokens c fault after h := by
    rcases Walk.bind_eq_some h with ⟨a, mid, -, hthen⟩ | ⟨other, hfirst, hother⟩
    · exact (hf a).faults tokens mid fault after hthen
    · cases hother
      exact hx.faults tokens c fault after hfirst

theorem ite {p : Prop} [Decidable p] {x y : Nat → Walk α} (hx : p → Gauged x)
    (hy : ¬ p → Gauged y) : Gauged fun limit => if p then x limit else y limit := by
  split
  · next hp => exact hx hp
  · next hp => exact hy hp

theorem expect (wanted : Wanted) : Gauged fun _ => Walk.expect wanted := by
  unfold Walk.expect
  refine .bind current fun t => .ite (fun _ => .bind skip fun _ => .pure t) fun _ => .fail ?_
  exact .inl rfl

theorem assigns : Gauged fun _ => Walk.assigns := by
  unfold Walk.assigns
  refine .bind current fun t => .ite (fun _ => ?_) fun _ => .pure false
  exact .bind peek fun behind => .pure _

theorem literal (t : Token) : Gauged fun _ => Walk.lift (literal t) := by
  refine lift fun fault hfault => ?_
  unfold Parser.literal at hfault
  -- A literal of either kind is a number or a bad one.
  split at hfault
  all_goals
    dsimp only at hfault
    split at hfault
    · cases hfault
    · cases hfault
      exact .inl rfl

/-- Without a limit a walk one level deeper is that walk, between raising the counter and lowering
it. -/
theorem inside_of_nested {x : Walk α} {tokens : List Token} {c after : Cursor}
    {outcome : Except Fault α} (h : Walk.nested 0 x tokens c = some (outcome, after)) :
    ∃ t inside, tokens[c.pos]? = some t ∧ x tokens c.enter = some (outcome, inside) ∧
      after = inside.leave := by
  cases ht : tokens[c.pos]? with
  | none => simp [Walk.nested, ht] at h
  | some t =>
      rw [Walk.nested_of_le ht (by omega)] at h
      obtain ⟨⟨_, inside⟩, hinside, hleave⟩ := Option.map_eq_some_iff.1 h
      cases hleave
      exact ⟨t, inside, rfl, hinside, rfl⟩

theorem nested {x : Nat → Walk α} (hx : Gauged x) :
    Gauged fun limit => Walk.nested limit (x limit) where
  restores limit tokens c a after h := by
    cases ht : tokens[c.pos]? with
    | none => simp [Walk.nested, ht] at h
    | some t =>
        by_cases hdeep : 0 < limit ∧ limit < c.depth + 1
        · rw [Walk.nested_of_lt ht hdeep] at h
          cases h
        · rw [Walk.nested_of_le ht hdeep] at h
          obtain ⟨⟨_, inside⟩, hinside, hleave⟩ := Option.map_eq_some_iff.1 h
          cases hleave
          have hdepth : inside.depth = c.depth + 1 :=
            hx.restores limit tokens c.enter a inside hinside
          rw [Cursor.leave, hdepth, Nat.add_sub_cancel]
  grows tokens c outcome after h := by
    obtain ⟨-, inside, -, hinside, rfl⟩ := inside_of_nested h
    exact Nat.le_trans (Nat.le_max_left _ _) (hx.grows tokens c.enter outcome inside hinside)
  of_peak_le limit tokens c outcome after h hpeak := by
    obtain ⟨t, inside, ht, hinside, rfl⟩ := inside_of_nested h
    -- The peak is at least the value that the counter was raised to.
    have hle : c.depth + 1 ≤ limit := Nat.le_trans (Nat.le_max_right _ _)
      (Nat.le_trans (hx.grows tokens c.enter outcome inside hinside) hpeak)
    rw [Walk.nested_of_le ht (by omega),
      hx.of_peak_le limit tokens c.enter outcome inside hinside hpeak]
    rfl
  of_lt_peak limit tokens c outcome after h hlimit hbefore hpeak := by
    obtain ⟨t, inside, ht, hinside, rfl⟩ := inside_of_nested h
    by_cases hdeep : 0 < limit ∧ limit < c.depth + 1
    · exact ⟨t.pos, c.enter, Walk.nested_of_lt ht hdeep⟩
    · have henter : c.enter.peak ≤ limit := Nat.max_le.2 ⟨hbefore, by omega⟩
      obtain ⟨pos, beyond, hfault⟩ :=
        hx.of_lt_peak limit tokens c.enter outcome inside hinside hlimit henter hpeak
      refine ⟨pos, beyond.leave, ?_⟩
      rw [Walk.nested_of_le ht hdeep, hfault]
      rfl
  faults tokens c fault after h := by
    obtain ⟨-, inside, -, hinside, -⟩ := inside_of_nested h
    exact hx.faults tokens c.enter fault inside hinside

end Gauged

/-! ## The productions -/

/-- Each production with so many calls. -/
structure GaugedCalls (calls : Nat) : Prop where
  phrase : ∀ p, Gauged fun limit => Walk.phrase limit calls p
  chain : ∀ level left, Gauged fun limit => Walk.chain limit calls level left
  conditional : Gauged fun limit => Walk.conditional limit calls
  chooseArms : Gauged fun limit => Walk.chooseArms limit calls
  selectArms : Gauged fun limit => Walk.selectArms limit calls
  loopBody : Gauged fun limit => Walk.loopBody limit calls

namespace GaugedCalls

variable {calls : Nat} (h : GaugedCalls calls)

include h

theorem statement : Gauged fun limit => Walk.phrase limit (calls + 1) .statement := by
  simp only [Walk.phrase]
  refine .nested (.bind .current fun t => ?_)
  refine .ite (fun _ => ?_) fun _ => .ite (fun _ => ?_) fun _ => ?_
  · refine .bind .skip fun _ => .bind (.expect .openParen) fun _ => ?_
    exact .bind (.expect .closeParen) fun _ => .fail (.inr rfl)
  · refine .bind .skip fun _ => .bind (.expect .identifier) fun name => ?_
    exact .bind (.expect .equals) fun _ => .bind (h.phrase .statement) fun value => .pure _
  · refine .bind .assigns fun assigns => .ite (fun _ => ?_) fun _ => h.phrase (.chain .logic)
    exact .bind .skip fun _ => .bind .skip fun _ => .bind (h.phrase .statement) fun value => .pure _

/-- Words and signs in front, each of which opens a level of nesting. -/
theorem unary (test : Token → Bool) (p plainer : Phrase) :
    Gauged fun limit => (do
      let t ← Walk.current
      if test t then
        Walk.nested limit do
          Walk.skip
          let operand ← Walk.phrase limit calls p
          pure (.unary t.operator operand)
      else Walk.phrase limit calls plainer) := by
  refine .bind .current fun t => .ite (fun _ => .nested ?_) fun _ => h.phrase plainer
  exact .bind .skip fun _ => .bind (h.phrase p) fun operand => .pure _

theorem atom : Gauged fun limit => Walk.phrase limit (calls + 1) .atom := by
  simp only [Walk.phrase]
  refine .bind .current fun t => .ite (fun _ => ?_) fun _ => .ite (fun _ => ?_) fun _ =>
    .ite (fun _ => h.phrase .group) fun _ => .ite (fun _ => ?_) fun _ => .ite (fun _ => ?_)
    fun _ => .ite (fun _ => ?_) fun _ => .fail (.inl rfl)
  · exact .bind .skip fun _ => .bind (.literal t) fun n => .pure _
  · exact .bind .skip fun _ => .pure _
  · refine .bind .skip fun _ => .bind h.conditional fun first => ?_
    exact .bind h.chooseArms fun others => .pure _
  · refine .bind .skip fun _ => .bind (h.phrase .statement) fun subject => ?_
    exact .bind h.selectArms fun arms => .pure _
  · refine .bind .skip fun _ => .bind (h.phrase .group) fun condition => ?_
    exact .bind (.expect _) fun _ => .bind h.loopBody fun body => .pure _

theorem phrase_succ (p : Phrase) : Gauged fun limit => Walk.phrase limit (calls + 1) p := by
  cases p with
  | statement => exact h.statement
  | chain level =>
      simp only [Walk.phrase]
      exact .bind (h.phrase level.first) fun first => h.chain level first
  | negation =>
      simp only [Walk.phrase]
      exact h.unary (·.isKeyword "not") .negation (.chain .comparison)
  | factor =>
      simp only [Walk.phrase]
      exact h.unary Token.isSign .factor (.chain .power)
  | atom => exact h.atom
  | group =>
      simp only [Walk.phrase]
      refine .bind (.expect .openParen) fun _ => .bind (h.phrase .statement) fun inner => ?_
      exact .bind (.expect .closeParen) fun _ => .pure inner

theorem chain_succ (level : Level) (left : Expr) :
    Gauged fun limit => Walk.chain limit (calls + 1) level left := by
  simp only [Walk.chain]
  refine .bind .current fun t => .ite (fun _ => ?_) fun _ => .pure left
  exact .bind .skip fun _ => .bind (h.phrase level.later) fun right => h.chain level _

theorem conditional_succ : Gauged fun limit => Walk.conditional limit (calls + 1) := by
  simp only [Walk.conditional]
  refine .bind (h.phrase .group) fun condition => .bind (.expect _) fun _ => ?_
  exact .bind (h.phrase .statement) fun body => .pure _

theorem chooseArms_succ : Gauged fun limit => Walk.chooseArms limit (calls + 1) := by
  simp only [Walk.chooseArms]
  refine .bind .current fun t => .ite (fun _ => ?_) fun _ => .ite (fun _ => ?_) fun _ => ?_
  · refine .bind .skip fun _ => .bind h.conditional fun case => ?_
    exact .bind h.chooseArms fun others => .pure _
  · refine .bind .skip fun _ => .bind (h.phrase .statement) fun last => ?_
    exact .bind (.expect _) fun _ => .pure _
  · exact .bind (.expect _) fun _ => .pure _

theorem selectArms_succ : Gauged fun limit => Walk.selectArms limit (calls + 1) := by
  simp only [Walk.selectArms]
  refine .bind .current fun t => .ite (fun _ => ?_) fun _ => .ite (fun _ => ?_) fun _ => ?_
  · refine .bind .skip fun _ => .bind (h.phrase .statement) fun guard => ?_
    refine .bind (.expect .colon) fun _ => .bind (h.phrase .statement) fun body => ?_
    exact .bind h.selectArms fun others => .pure _
  · refine .bind .skip fun _ => .bind (.expect .colon) fun _ => ?_
    exact .bind (h.phrase .statement) fun last => .bind (.expect _) fun _ => .pure _
  · exact .bind (.expect _) fun _ => .pure _

theorem loopBody_succ : Gauged fun limit => Walk.loopBody limit (calls + 1) := by
  simp only [Walk.loopBody]
  refine .bind .current fun t => .ite (fun _ => .bind (.expect _) fun _ => .pure _) fun _ => ?_
  exact .bind (h.phrase .statement) fun first => .bind h.loopBody fun others => .pure _

end GaugedCalls

theorem gauged (calls : Nat) : GaugedCalls calls := by
  induction calls with
  | zero =>
      refine ⟨fun p => ?_, fun level left => ?_, ?_, ?_, ?_, ?_⟩
      all_goals
        simp only [Walk.phrase, Walk.chain, Walk.conditional, Walk.chooseArms, Walk.selectArms,
          Walk.loopBody]
        exact .stuck
  | succ calls h =>
      exact ⟨h.phrase_succ, h.chain_succ, h.conditional_succ, h.chooseArms_succ,
        h.selectArms_succ, h.loopBody_succ⟩

/-! ## Whole programs -/

theorem program_gauged (calls : Nat) : Gauged fun limit => Walk.program limit calls := by
  induction calls with
  | zero =>
      simp only [Walk.program]
      exact .stuck
  | succ calls ih =>
      simp only [Walk.program]
      refine .bind .current fun t => .ite (fun _ => .pure []) fun _ => ?_
      exact .bind ((gauged calls).phrase .statement) fun first => .bind ih fun others => .pure _

/-- A statement that answers leaves the counter as it was. -/
theorem statement_restores {limit calls : Nat} {tokens : List Token} {c after : Cursor}
    {first : Expr}
    (h : Walk.phrase limit calls .statement tokens c = some (.ok first, after)) :
    after.depth = c.depth :=
  ((gauged calls).phrase .statement).restores limit tokens c first after h

theorem starts_eq_depth (limit calls : Nat) (tokens : List Token) (c : Cursor) :
    ∀ depth ∈ Walk.starts limit calls tokens c, depth = c.depth := by
  induction calls generalizing c with
  | zero => simp [Walk.starts]
  | succ calls ih =>
      intro depth hdepths
      rw [Walk.starts] at hdepths
      split at hdepths
      · cases hdepths
      split at hdepths
      · cases hdepths
      rcases List.mem_cons.1 hdepths with rfl | hlater
      · rfl
      -- The next statement begins where this one, having answered, left the counter.
      split at hlater
      · next first after hrun => rw [ih after depth hlater, statement_restores hrun]
      · cases hlater

section Threshold

variable {tokens : List Token} {after : Cursor} {outcome : Except Fault Program}

theorem exists_ofTokens (limit : Nat) (tokens : List Token) :
    ∃ after, Walk.ofTokens limit tokens = some (Program.ofTokens limit tokens, after) := by
  obtain ⟨-, -, after, -, -, hrun, -⟩ := ofTokens_follows limit tokens (Nat.le_refl _)
  exact ⟨after, hrun⟩

theorem ofTokens_of_peak_le (h : Walk.ofTokens 0 tokens = some (Program.ofTokens 0 tokens, after))
    {limit : Nat} (hlimit : after.peak ≤ limit) :
    Program.ofTokens limit tokens = Program.ofTokens 0 tokens := by
  obtain ⟨beyond, hrun⟩ := exists_ofTokens limit tokens
  have hsame := (program_gauged _).of_peak_le limit _ _ _ after h hlimit
  exact congrArg Prod.fst (Option.some.inj (hrun.symm.trans hsame))

theorem ofTokens_of_lt_peak (h : Walk.ofTokens 0 tokens = some (Program.ofTokens 0 tokens, after))
    {limit : Nat} (hpositive : 0 < limit) (hlimit : limit < after.peak) :
    ∃ pos, Program.ofTokens limit tokens = .error ⟨.tooDeep limit, pos⟩ := by
  obtain ⟨beyond, hrun⟩ := exists_ofTokens limit tokens
  obtain ⟨pos, beyond', hfault⟩ :=
    (program_gauged _).of_lt_peak limit _ _ _ after h hpositive (Nat.zero_le _) hlimit
  exact ⟨pos, congrArg Prod.fst (Option.some.inj (hrun.symm.trans hfault))⟩

theorem ordinary_of_ofTokens {fault : Fault} (h : Program.ofTokens 0 tokens = .error fault) :
    fault.Ordinary := by
  obtain ⟨after, hrun⟩ := exists_ofTokens 0 tokens
  rw [h] at hrun
  exact (program_gauged _).faults _ _ fault after hrun

end Threshold
end Parser

open Reckoner.Parser in
/-- The threshold of the limit on nesting, which is the greatest value of the counter in the parse
without a limit: from there on a limit changes nothing, and below it the parse fails. A statement
that is read leaves the counter as it was, so every statement of a program begins at zero. -/
theorem Program.ofTokens_of_limit (tokens : List Token) :
    ∃ k, (Walk.ofTokens 0 tokens).map (·.2.peak) = some k ∧
      (∀ limit, (Walk.ofTokens limit tokens).map (·.1) = some (Program.ofTokens limit tokens)) ∧
      (∀ limit : Int, limit ≤ 0 ∨ k ≤ limit →
        Program.ofTokens limit.toNat tokens = Program.ofTokens 0 tokens) ∧
      (∀ fault, Program.ofTokens 0 tokens = .error fault → fault.Ordinary) ∧
      (∀ limit : Int, 0 < limit → limit < k →
        ∃ fault, Program.ofTokens limit.toNat tokens = .error fault ∧
          fault.cause = .tooDeep limit.toNat ∧ fault.code = .limit) ∧
      (∀ limit calls given c first after,
        Walk.phrase limit calls .statement given c = some (.ok first, after) →
          after.depth = c.depth) ∧
      ∀ limit calls, ∀ depth ∈ Walk.starts limit calls (Walk.given tokens) .start, depth = 0 := by
  obtain ⟨after, hrun⟩ := exists_ofTokens 0 tokens
  refine ⟨after.peak, by rw [hrun]; rfl, ?_, ?_, ?_, ?_, ?_, ?_⟩
  · intro limit
    obtain ⟨beyond, hlimit⟩ := exists_ofTokens limit tokens
    rw [hlimit]
    rfl
  · rintro limit (hnone | henough)
    · rw [Int.toNat_of_nonpos hnone]
    · exact ofTokens_of_peak_le hrun (by omega)
  · intro fault hfault
    exact ordinary_of_ofTokens hfault
  · intro limit hpositive hfew
    have hbelow : limit.toNat < after.peak := by omega
    obtain ⟨pos, hfault⟩ := ofTokens_of_lt_peak hrun (by omega) hbelow
    exact ⟨_, hfault, rfl, rfl⟩
  · intro limit calls given c first after hfirst
    exact statement_restores hfirst
  · intro limit calls
    exact starts_eq_depth limit calls (Walk.given tokens) .start

/-- The statement in parentheses is at depth two: two levels are enough, and one is not. -/
theorem Program.ofTokens_of_limit_parens :
    let tokens : List Token :=
      [⟨.openParen, "(", ⟨1, 1⟩⟩, ⟨.int, "1", ⟨1, 2⟩⟩, ⟨.closeParen, ")", ⟨1, 3⟩⟩,
        ⟨.identifier, "x", ⟨1, 5⟩⟩, ⟨.eof, "", ⟨1, 6⟩⟩]
    let program : Program := [.num (.int 1) ⟨1, 2⟩, .var "x" ⟨1, 5⟩]
    (∀ limit : Int, limit ≤ 0 ∨ 2 ≤ limit → Program.ofTokens limit.toNat tokens = .ok program) ∧
      ∃ fault, Program.ofTokens 1 tokens = .error fault ∧ fault.code = .limit := by
  intro tokens program
  rcases Program.ofTokens_of_limit tokens with ⟨k, hk, hrun, hsame, -, hfew, -, -⟩
  have hpeak : k = 2 := Option.some.inj (hk.symm.trans (by rfl))
  have hprogram : Program.ofTokens 0 tokens = .ok program :=
    Option.some.inj ((hrun 0).symm.trans (by rfl))
  subst hpeak
  constructor
  · intro limit hlimit
    exact (hsame limit hlimit).trans hprogram
  · rcases hfew 1 (by decide) (by decide) with ⟨fault, hfault, -, hcode⟩
    exact ⟨fault, hfault, hcode⟩

end Reckoner
