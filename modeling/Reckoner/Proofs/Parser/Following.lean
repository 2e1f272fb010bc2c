import Reckoner.Proofs.Parser.Tracking

/-!
# The parser with a cursor and the parser

The parser with a cursor and a counter ends for every list of tokens, and comes to what the parser
does. How many calls it makes one inside the other is bounded by the number of tokens that are left:
between two tokens that it takes there are fewer than twelve calls.

* `Phrase.descent` — how far a phrase goes down the grammar before it takes a token;
* `Follows` — the productions do what the parser does when they have enough calls;
* `follows` — they do, whatever the number of calls;
* `program_follows`, `ofTokens_follows` — whole programs.
-/

namespace Reckoner

/-- How many calls lead from a phrase down to one that takes a token or fails. -/
def Phrase.descent : Phrase → Nat
  | .group => 1
  | .atom => 2
  | .chain .power => 3
  | .factor => 4
  | .chain .product => 5
  | .chain .sum => 6
  | .chain .comparison => 7
  | .negation => 8
  | .chain .logic => 9
  | .statement => 10

theorem Phrase.descent_le (p : Phrase) : p.descent ≤ 10 := by
  cases p with
  | chain level => cases level <;> simp [descent]
  | _ => simp [descent]

theorem Phrase.descent_first (level : Level) :
    level.first.descent < (Phrase.chain level).descent := by
  cases level <;> simp [Level.first, descent]

namespace Parser

/-- Each production with so many calls does what the parser does on tokens that these calls are
enough for. -/
structure Follows (r : Rules) (calls : Nat) : Prop where
  phrase : ∀ p d (us : List Token), 12 * us.length + p.descent ≤ calls →
    Tracks (Walk.phrase r.limit calls p) (plain p d) r d us
  chain : ∀ level d left (us : List Token), 12 * us.length + 11 ≤ calls →
    Tracks (Walk.chain r.limit calls level left) (plainChain level d left) r d us
  conditional : ∀ d (us : List Token), 12 * us.length + 2 ≤ calls →
    Tracks (Walk.conditional r.limit calls) (plainConditional d) r d us
  chooseArms : ∀ d (us : List Token), 12 * us.length + 1 ≤ calls →
    Tracks (Walk.chooseArms r.limit calls) (plainChooseArms d) r d us
  selectArms : ∀ d (us : List Token), 12 * us.length + 1 ≤ calls →
    Tracks (Walk.selectArms r.limit calls) (plainSelectArms d) r d us
  loopBody : ∀ d (us : List Token), 12 * us.length + 11 ≤ calls →
    Tracks (Walk.loopBody r.limit calls) (plainLoopBody d) r d us

variable {r : Rules} {calls d : Nat} {us : List Token}

/-- A phrase takes tokens, so that fewer calls are enough for what comes behind it. -/
theorem Follows.leading_bind {α : Type} {p : Phrase} {k : Expr → Walk α} {k' : Expr → Plain α}
    (h : Follows r calls) (hcalls : 12 * us.length + p.descent ≤ calls)
    (hk : ∀ e mid, mid.length < us.length → Tracks (k e) (k' e) r d mid) :
    Tracks (Walk.phrase r.limit calls p >>= k) (plain p d >>= k') r d us :=
  (h.phrase p d us hcalls).bind fun e mid hrun => hk e mid (plain_shorter hrun)

/-- Behind a token that was taken there are calls enough for any phrase. -/
theorem Follows.phrase_bind {α : Type} {p : Phrase} {k : Expr → Walk α} {k' : Expr → Plain α}
    (h : Follows r calls) (hcalls : 12 * us.length + 10 ≤ calls)
    (hk : ∀ e mid, mid.length < us.length → Tracks (k e) (k' e) r d mid) :
    Tracks (Walk.phrase r.limit calls p >>= k) (plain p d >>= k') r d us :=
  h.leading_bind (Nat.le_trans (Nat.add_le_add_left p.descent_le _) hcalls) hk

theorem Follows.conditional_bind {α : Type} {k : Expr × Expr → Walk α}
    {k' : Expr × Expr → Plain α} (h : Follows r calls) (hcalls : 12 * us.length + 2 ≤ calls)
    (hk : ∀ v mid, mid.length < us.length → Tracks (k v) (k' v) r d mid) :
    Tracks (Walk.conditional r.limit calls >>= k) (plainConditional d >>= k') r d us :=
  (h.conditional d us hcalls).bind fun v mid hrun => hk v mid (plainConditional_shorter hrun)

section Step

variable (hstop : r.stop.kind = .eof) (h : Follows r calls)

include hstop h

theorem statement_tracks (hcalls : 12 * us.length + 9 ≤ calls) :
    Tracks (Walk.phrase r.limit (calls + 1) .statement) (plain .statement d) r d us := by
  refine .congr (plain_statement hstop) ?_
  rw [Walk.phrase]
  refine .nested (.current fun t ht => .ite (fun hexit => ?_) fun _ => .ite (fun hvar => ?_)
    fun _ => ?_)
  · refine .skip hstop ht (kind_ne_eof_of_isKeyword hexit) fun vs _ => ?_
    exact .expect hstop fun _ ws _ => .expect hstop fun _ _ _ => .lift _
  · refine .skip hstop ht (kind_ne_eof_of_isKeyword hvar) fun vs hvs => ?_
    refine .expect hstop fun name ws hws => .expect hstop fun _ ys hys => ?_
    exact h.phrase_bind (by omega) fun value _ _ => .pure _
  · -- Both tokens that begin an assignment were looked at, and neither is the end of input.
    refine .assigns hstop (h.phrase (.chain .logic) _ us hcalls) ?_
    rintro name equals vs rfl hname hequals
    refine .skip_cons (by simp [hname]) (.skip_cons (by simp [hequals]) ?_)
    simp only [List.length_cons] at hcalls
    exact h.phrase_bind (by omega) fun value _ _ => .pure _

theorem climb_tracks {level : Level}
    (hcalls : 12 * us.length + (Phrase.chain level).descent ≤ calls + 1) :
    Tracks (Walk.phrase r.limit (calls + 1) (.chain level)) (plain (.chain level) d) r d us := by
  refine .congr (plain_chain hstop level) ?_
  rw [Walk.phrase]
  have hfirst := Phrase.descent_first level
  -- No token is taken before the first operand, which stands lower in the grammar instead.
  refine h.leading_bind (by omega) fun first mid hmid => h.chain level d first mid ?_
  omega

/-- Words and signs in front, each of which opens a level of nesting. -/
theorem unary_tracks {test : Token → Bool} {p plainer : Phrase}
    (heof : ∀ t, test t → t.kind ≠ .eof)
    (hcalls : 12 * us.length + plainer.descent ≤ calls) :
    Tracks (do
        let t ← Walk.current
        if test t then
          Walk.nested r.limit do
            Walk.skip
            let operand ← Walk.phrase r.limit calls p
            pure (.unary t.operator operand)
        else Walk.phrase r.limit calls plainer)
      (plainUnary test p plainer d) r d us := by
  refine .current fun t ht => .ite (fun htest => .nested ?_) fun _ => ?_
  · refine .skip hstop ht (heof t htest) fun vs hvs => ?_
    exact h.phrase_bind (by omega) fun operand _ _ => .pure _
  · exact h.phrase plainer d us hcalls

theorem negation_tracks (hcalls : 12 * us.length + 7 ≤ calls) :
    Tracks (Walk.phrase r.limit (calls + 1) .negation) (plain .negation d) r d us := by
  refine .congr (plain_negation hstop) ?_
  rw [Walk.phrase]
  exact unary_tracks hstop h (fun _ => kind_ne_eof_of_isKeyword) hcalls

theorem factor_tracks (hcalls : 12 * us.length + 3 ≤ calls) :
    Tracks (Walk.phrase r.limit (calls + 1) .factor) (plain .factor d) r d us := by
  refine .congr (plain_factor hstop) ?_
  rw [Walk.phrase]
  refine unary_tracks hstop h (fun t hsign heof => ?_) hcalls
  simp [Token.isSign, heof] at hsign

theorem group_tracks (hcalls : 12 * us.length ≤ calls) :
    Tracks (Walk.phrase r.limit (calls + 1) .group) (plain .group d) r d us := by
  refine .congr plain_group ?_
  rw [Walk.phrase]
  refine .expect hstop fun _ vs hvs => ?_
  refine h.phrase_bind (by omega) fun inner mid _ => ?_
  exact .expect hstop fun _ _ _ => .pure inner

omit hstop h in
/-- The number of a literal does not depend on the tokens, so that it is the same before the literal
is taken and after. -/
theorem literal_skip (t : Token) :
    (do
      let n ← Plain.lift (literal t)
      Plain.skip
      pure (.num n t.pos) : Plain Expr) r us =
      (do
        Plain.skip
        let n ← Plain.lift (literal t)
        pure (.num n t.pos) : Plain Expr) r us := by
  cases hread : literal t <;> rfl

theorem atom_tracks (hcalls : 12 * us.length + 1 ≤ calls) :
    Tracks (Walk.phrase r.limit (calls + 1) .atom) (plain .atom d) r d us := by
  refine .congr (plain_atom hstop) ?_
  rw [Walk.phrase]
  refine .current fun t ht => .ite (fun hnumeral => ?_) fun _ => .ite (fun hname => ?_) fun _ => ?_
  · have hkind : t.kind ≠ .eof := by rcases hnumeral with h | h <;> simp [h]
    refine .congr (literal_skip t) (.skip hstop ht hkind fun vs _ => ?_)
    exact (Tracks.lift _).bind fun n _ _ => .pure _
  · exact .skip hstop ht (by simp [hname]) fun vs _ => .pure _
  refine .ite (fun _ => h.phrase .group d us hcalls) fun _ => .ite (fun hif => ?_) fun _ =>
    .ite (fun hswitch => ?_) fun _ => .ite (fun hwhile => ?_) fun _ => .lift _
  · refine .skip hstop ht (kind_ne_eof_of_isKeyword hif) fun vs hvs => ?_
    refine h.conditional_bind (by omega) fun first mid hmid => ?_
    exact (h.chooseArms d mid (by omega)).bind fun others _ _ => .pure _
  · refine .skip hstop ht (kind_ne_eof_of_isKeyword hswitch) fun vs hvs => ?_
    refine h.phrase_bind (by omega) fun subject mid hmid => ?_
    exact (h.selectArms d mid (by omega)).bind fun arms _ _ => .pure _
  · refine .skip hstop ht (kind_ne_eof_of_isKeyword hwhile) fun vs hvs => ?_
    refine h.phrase_bind (by omega) fun condition mid hmid => ?_
    refine .expect hstop fun _ ws hws => ?_
    exact (h.loopBody d ws (by omega)).bind fun body _ _ => .pure _

theorem phrase_tracks (p : Phrase) (hcalls : 12 * us.length + p.descent ≤ calls + 1) :
    Tracks (Walk.phrase r.limit (calls + 1) p) (plain p d) r d us := by
  cases p with
  | statement => exact statement_tracks hstop h (Nat.le_of_succ_le_succ hcalls)
  | chain level => exact climb_tracks hstop h hcalls
  | negation => exact negation_tracks hstop h (Nat.le_of_succ_le_succ hcalls)
  | factor => exact factor_tracks hstop h (Nat.le_of_succ_le_succ hcalls)
  | atom => exact atom_tracks hstop h (Nat.le_of_succ_le_succ hcalls)
  | group => exact group_tracks hstop h (Nat.le_of_succ_le_succ hcalls)

theorem chain_tracks {level : Level} {left : Expr} (hcalls : 12 * us.length + 10 ≤ calls) :
    Tracks (Walk.chain r.limit (calls + 1) level left) (plainChain level d left) r d us := by
  refine .congr (bare_chain hstop left us _) ?_
  rw [Walk.chain]
  refine .current fun op ht => .ite (fun hop => ?_) fun _ => .pure left
  refine .skip hstop ht (fun heof => not_accepts_of_eof heof level hop) fun vs hvs => ?_
  exact h.phrase_bind (by omega) fun right mid hmid => h.chain level d _ mid (by omega)

theorem conditional_tracks (hcalls : 12 * us.length + 1 ≤ calls) :
    Tracks (Walk.conditional r.limit (calls + 1)) (plainConditional d) r d us := by
  refine .congr plainConditional_eq ?_
  rw [Walk.conditional]
  refine h.leading_bind hcalls fun condition mid hmid => .expect hstop fun _ vs hvs => ?_
  exact h.phrase_bind (by omega) fun body _ _ => .pure _

theorem chooseArms_tracks (hcalls : 12 * us.length ≤ calls) :
    Tracks (Walk.chooseArms r.limit (calls + 1)) (plainChooseArms d) r d us := by
  refine .congr (bare_chooseArms hstop us _) ?_
  rw [Walk.chooseArms]
  refine .current fun t ht => .ite (fun helif => ?_) fun _ => .ite (fun helse => ?_) fun _ => ?_
  · refine .skip hstop ht (kind_ne_eof_of_isKeyword helif) fun vs hvs => ?_
    refine h.conditional_bind (by omega) fun case mid hmid => ?_
    exact (h.chooseArms d mid (by omega)).bind fun others _ _ => .pure _
  · refine .skip hstop ht (kind_ne_eof_of_isKeyword helse) fun vs hvs => ?_
    refine h.phrase_bind (by omega) fun last mid _ => ?_
    exact .expect hstop fun _ _ _ => .pure _
  · exact .expect hstop fun _ _ _ => .pure _

theorem selectArms_tracks (hcalls : 12 * us.length ≤ calls) :
    Tracks (Walk.selectArms r.limit (calls + 1)) (plainSelectArms d) r d us := by
  refine .congr (bare_selectArms hstop us _) ?_
  rw [Walk.selectArms]
  refine .current fun t ht => .ite (fun hcase => ?_) fun _ => .ite (fun hdefault => ?_) fun _ => ?_
  · refine .skip hstop ht (kind_ne_eof_of_isKeyword hcase) fun vs hvs => ?_
    refine h.phrase_bind (by omega) fun guard mid hmid => ?_
    refine .expect hstop fun _ ws hws => ?_
    refine h.phrase_bind (by omega) fun body mid' hmid' => ?_
    exact (h.selectArms d mid' (by omega)).bind fun others _ _ => .pure _
  · refine .skip hstop ht (kind_ne_eof_of_isKeyword hdefault) fun vs hvs => ?_
    refine .expect hstop fun _ ws hws => ?_
    refine h.phrase_bind (by omega) fun last mid _ => ?_
    exact .expect hstop fun _ _ _ => .pure _
  · exact .expect hstop fun _ _ _ => .pure _

theorem loopBody_tracks (hcalls : 12 * us.length + 10 ≤ calls) :
    Tracks (Walk.loopBody r.limit (calls + 1)) (plainLoopBody d) r d us := by
  refine .congr (bare_loopBody hstop us _) ?_
  rw [Walk.loopBody]
  refine .current fun t _ => .ite (fun _ => .expect hstop fun _ _ _ => .pure _) fun _ => ?_
  refine h.phrase_bind hcalls fun first mid hmid => ?_
  exact (h.loopBody d mid (by omega)).bind fun others _ _ => .pure _

end Step

/-- With enough calls the productions do what the parser does. -/
theorem follows (hstop : r.stop.kind = .eof) (calls : Nat) : Follows r calls := by
  induction calls with
  | zero =>
      -- Every production needs at least the call that is made of it.
      refine ⟨fun p d us hcalls => ?_, ?_, ?_, ?_, ?_, ?_⟩
      · cases p with
        | chain level => cases level <;> simp [Phrase.descent] at hcalls
        | _ => simp [Phrase.descent] at hcalls
      all_goals
        intros
        omega
  | succ calls h =>
      exact ⟨fun p d us hcalls => phrase_tracks hstop h p hcalls,
        fun level d left us hcalls => chain_tracks hstop h (Nat.le_of_succ_le_succ hcalls),
        fun d us hcalls => conditional_tracks hstop h (Nat.le_of_succ_le_succ hcalls),
        fun d us hcalls => chooseArms_tracks hstop h (Nat.le_of_succ_le_succ hcalls),
        fun d us hcalls => selectArms_tracks hstop h (Nat.le_of_succ_le_succ hcalls),
        fun d us hcalls => loopBody_tracks hstop h (Nat.le_of_succ_le_succ hcalls)⟩

/-! ## Whole programs -/

/-- Statement after statement, up to the end of input. -/
theorem program_follows (hstop : r.stop.kind = .eof) {tokens : List Token} {c : Cursor}
    (hdepth : c.depth = 0) (hdrop : tokens.drop c.pos = us ++ [r.stop])
    (hcalls : 12 * us.length + 11 ≤ calls) :
    ∃ taken mid after, us = taken ++ mid ∧ (∀ t ∈ taken, t.kind ≠ .eof) ∧
      Walk.program r.limit calls tokens c = some (program r us, after) ∧
      c.Gone taken.length after := by
  -- Each statement takes a token, so that fewer calls are enough for those behind it.
  induction calls generalizing us c with
  | zero => exact absurd hcalls (by omega)
  | succ calls ih =>
      rw [Walk.program, Walk.bind_of_ok (Walk.current_of_drop hdrop)]
      by_cases hkind : (r.current us).kind = .eof
      · refine ⟨[], us, c, rfl, fun t ht => absurd ht List.not_mem_nil, ?_, .still⟩
        rw [if_pos hkind, program_of_eof hkind]
        rfl
      rw [if_neg hkind]
      obtain ⟨taken, mid, between, rfl, hfree, hrun, hgone, hleft⟩ :=
        (follows hstop calls).phrase .statement 0 us (Nat.le_of_succ_le_succ hcalls) tokens c
          hdepth hdrop
      cases hy : plain .statement 0 r (taken ++ mid) with
      | error fault =>
          rw [hy] at hrun
          refine ⟨taken, mid, between, rfl, hfree, ?_, hgone⟩
          rw [Walk.bind_of_error hrun, program_of_error hstop hkind hy]
      | ok answer =>
          rcases answer with ⟨first, rest⟩
          obtain ⟨rfl, hbetween⟩ := hleft first rest hy
          have hshorter := plain_shorter hy
          rw [hy] at hrun
          obtain ⟨more, last, after, rfl, hmore, hothers, hon⟩ :=
            ih hbetween (hgone.drop hdrop) (by omega)
          refine ⟨taken ++ more, last, after, (List.append_assoc ..).symm, ?_, ?_, ?_⟩
          · exact fun t ht => (List.mem_append.1 ht).elim (hfree t) (hmore t)
          · rw [Walk.bind_of_ok hrun, program_of_ok hstop hkind hy]
            cases hprogram : program r (more ++ last) with
            | error fault =>
                rw [hprogram] at hothers
                rw [Walk.bind_of_error hothers]
                rfl
            | ok others =>
                rw [hprogram] at hothers
                rw [Walk.bind_of_ok hothers]
                rfl
          · rw [List.length_append]
            exact hgone.trans hon

theorem endToken_kind (tokens : List Token) : (endToken tokens).kind = .eof := by
  unfold endToken
  split
  · rfl
  · split
    · next h => exact beq_iff_eq.1 h
    · rfl

theorem given_eq (tokens : List Token) :
    Walk.given tokens = innerTokens tokens ++ [endToken tokens] := by
  unfold Walk.given innerTokens endToken
  cases hlast : tokens.getLast? with
  | none => rfl
  | some last =>
      by_cases hkind : last.kind = .eof
      · simp only [hkind, BEq.rfl, if_true]
        exact (List.dropLast_append_getLast? last hlast).symm
      · simp only [hkind, beq_eq_false_iff_ne.2 hkind, if_false, Bool.false_eq_true]

/-- The tokens of a list are gone through from the first one. -/
theorem ofTokens_follows (limit : Nat) (tokens : List Token) {calls : Nat}
    (hcalls : 12 * (Walk.given tokens).length ≤ calls) :
    ∃ taken mid after, innerTokens tokens = taken ++ mid ∧ (∀ t ∈ taken, t.kind ≠ .eof) ∧
      Walk.program limit calls (Walk.given tokens) .start =
        some (Program.ofTokens limit tokens, after) ∧
      Cursor.start.Gone taken.length after := by
  rw [given_eq, List.length_append, List.length_singleton] at hcalls
  rw [given_eq]
  exact program_follows (r := ⟨limit, endToken tokens⟩) (endToken_kind tokens) rfl List.drop_zero
    (by omega)

end Parser

/-- The parser with a cursor is by recursion on the number of calls, so that it can be evaluated. -/
theorem Program.ofTokens_of_walk {limit : Nat} {tokens : List Token}
    {outcome : Except Fault Program} {after : Parser.Cursor}
    (h : Parser.Walk.ofTokens limit tokens = some (outcome, after)) :
    Program.ofTokens limit tokens = outcome := by
  obtain ⟨-, -, last, -, -, hrun, -⟩ := Parser.ofTokens_follows limit tokens (Nat.le_refl _)
  exact congrArg Prod.fst (Option.some.inj (hrun.symm.trans h))

end Reckoner
