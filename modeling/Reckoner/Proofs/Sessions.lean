import Reckoner.Proofs.Joining
import Reckoner.Proofs.Unplaced
import Reckoner.Session

/-!
# Runs one after another

The statements of a program are evaluated in order over one environment, so two programs one after
the other do what both together do. With the parse of joined sources this makes a run of two
sources, the second below the first, the same as a run of each.

* `Expr.evalAll_append` — statements of two programs in one computation;
* `Session.execFrom_eq` — a run is an evaluation with a log beside it;
* `Session.Undisturbed` — runs that nobody calls off;
* `Session.Undisturbed.exec_eq_ok_iff` — those of them that answer;
* `Session.run_lines` — two sources run one by one and joined.
-/

namespace Reckoner

/-! ## Statements in order -/

instance : LawfulMonad Eval := by
  refine LawfulMonad.mk' Eval ?_ (fun _ _ => rfl) ?_
  · intro α x
    funext state
    change Eval.bind x Eval.pure state = x state
    unfold Eval.bind
    rcases x state with ⟨result, after⟩
    cases result <;> rfl
  · intro α β γ x f g
    funext state
    change Eval.bind (Eval.bind x f) g state = Eval.bind x (fun a => Eval.bind (f a) g) state
    unfold Eval.bind
    rcases x state with ⟨result, after⟩
    cases result <;> rfl

theorem Expr.evalAll_append (budget : Budget) (p q : Program) :
    Expr.evalAll budget (p ++ q) = do
      let vs ← Expr.evalAll budget p
      let ws ← Expr.evalAll budget q
      return vs ++ ws := by
  induction p with
  | nil => simp [Expr.evalAll]
  | cons e p ih => simp [Expr.evalAll, ih]

/-! ## Runs -/

namespace Session

/-- A run is an evaluation of the statements. -/
theorem execFrom_eq (budget : Budget) (logging : Bool) (index : Nat) (program : Program)
    (state : State) :
    ((execFrom budget logging index program state).1.outcome,
        (execFrom budget logging index program state).2) =
      Expr.evalAll budget program state := by
  -- Statement after statement; the index only numbers the entries of the log.
  induction program generalizing index state with
  | nil => rfl
  | cons e rest ih =>
      rw [execFrom, Expr.evalAll]
      change _ = Eval.bind _ _ state
      unfold Eval.bind
      rcases e.eval budget state with ⟨result, after⟩
      cases result with
      | error halt => rfl
      | ok value =>
          change ((execFrom budget logging (index + 1) rest after).1.outcome.map _,
              (execFrom budget logging (index + 1) rest after).2) = Eval.bind _ _ after
          unfold Eval.bind
          rw [← ih (index + 1) after]
          generalize execFrom budget logging (index + 1) rest after = run
          rcases run with ⟨⟨outcome, log⟩, last⟩
          cases outcome <;> rfl

theorem exec_eq (limits : Limits) (ctx : Context) (program : Program) (s : Session) :
    (s.exec limits ctx program).1.outcome =
        (Expr.evalAll (ctx.budget limits) program (s.begun limits ctx)).1 ∧
      (s.exec limits ctx program).2.env =
        (Expr.evalAll (ctx.budget limits) program (s.begun limits ctx)).2.env := by
  rw [← execFrom_eq (ctx.budget limits) limits.logging 0]
  exact ⟨rfl, rfl⟩

/-- Nobody calls the run off: its context is never done, and no timeout is set. -/
def Undisturbed (limits : Limits) (ctx : Context) : Prop :=
  ctx.expiryWithin limits.timeout = .never

theorem Undisturbed.begun_eq {limits : Limits} {ctx : Context} (h : Undisturbed limits ctx)
    (s : Session) : s.begun limits ctx = ⟨s.env, .never⟩ := by
  rw [begun, h]

/-- Undisturbed runs answer when the evaluations do. -/
theorem Undisturbed.exec_eq_ok_iff {limits : Limits} {ctx : Context} (h : Undisturbed limits ctx)
    {program : Program} {s : Session} {vs : List Value} {after : Environment} :
    (s.exec limits ctx program).1.outcome = .ok vs ∧ (s.exec limits ctx program).2.env = after ↔
      Expr.evalAll (ctx.budget limits) program ⟨s.env, .never⟩ = (.ok vs, ⟨after, .never⟩) := by
  obtain ⟨houtcome, henv⟩ := exec_eq limits ctx program s
  rw [houtcome, henv, h.begun_eq]
  rcases hrun : Expr.evalAll (ctx.budget limits) program ⟨s.env, .never⟩ with ⟨outcome, state⟩
  obtain ⟨last, rfl⟩ := Expr.evalAll_never hrun
  simp

/-- Two programs that answer one after the other do so in one run, also with the second in other
places: the results and bindings are the same but for places. -/
theorem Undisturbed.exec_append_mapPos {limits : Limits} {ctx : Context}
    (h : Undisturbed limits ctx) {first second : Program} {s : Session} {va vb : List Value}
    (hva : (s.exec limits ctx first).1.outcome = .ok va)
    (hvb : ((s.exec limits ctx first).2.exec limits ctx second).1.outcome = .ok vb)
    (f : Position → Position) :
    ∃ vs, (s.exec limits ctx (first ++ second.map (Expr.mapPos f))).1.outcome = .ok vs ∧
      vs.map Value.unplaced = (va ++ vb).map Value.unplaced ∧
      (s.exec limits ctx (first ++ second.map (Expr.mapPos f))).2.env.unplaced =
        ((s.exec limits ctx first).2.exec limits ctx second).2.env.unplaced := by
  have hfirst := h.exec_eq_ok_iff.1 ⟨hva, rfl⟩
  have hsecond := h.exec_eq_ok_iff.1 ⟨hvb, rfl⟩
  have halike := Expr.evalAll_mapPosAll (ctx.budget limits) f second
  rw [Expr.mapPosAll_eq_map] at halike
  -- In its other places the second program answers too, alike but for places.
  rcases halike.exists_ok ⟨rfl, rfl⟩ hsecond with
    ⟨vb', ⟨after, expiry⟩, hmoved, hvalues, hafter, hexpiry⟩
  obtain rfl : Expiry.never = expiry := hexpiry
  have hboth : Expr.evalAll (ctx.budget limits) (first ++ second.map (Expr.mapPos f))
      ⟨s.env, .never⟩ = (.ok (va ++ vb'), ⟨after, .never⟩) := by
    rw [Expr.evalAll_append]
    exact (Eval.bind_of_ok hfirst).trans (Eval.bind_of_ok hmoved)
  rcases h.exec_eq_ok_iff.2 hboth with ⟨houtcome, henv⟩
  refine ⟨va ++ vb', houtcome, ?_, ?_⟩
  · rw [List.map_append, List.map_append, hvalues]
  · rw [henv]
    exact hafter.symm

theorem run_of_ofSource {limits : Limits} {ctx : Context} {source : List Char} {program : Program}
    (h : Program.ofSource limits.depth source = .ok program) (s : Session) :
    s.run limits ctx source = s.exec limits ctx program := by
  rw [run, h]

/-- Sources that parse, the first without an open string and the second without a sign in front: the
second below the first is parsed as the statements of both, those of the second further down. Where
nobody calls the runs off and both answer, a run of the joined source has the results of both and
leaves the same bindings, but for places. -/
theorem run_lines {limit : Nat} {a b : List Char} {first second : Program}
    (ha : Program.ofSource limit a = .ok first) (hb : Program.ofSource limit b = .ok second)
    (hquotes : Even (a.count '"')) (hsign : BeginsUnsigned b) :
    Program.ofSource limit (a ++ '\n' :: b) =
        .ok (first ++ second.map (Expr.mapPos (Position.down (a.count '\n' + 1)))) ∧
      ∀ (limits : Limits) (ctx : Context) (s : Session) (va vb : List Value),
        limits.depth = limit → Undisturbed limits ctx →
        (s.run limits ctx a).1.outcome = .ok va →
        ((s.run limits ctx a).2.run limits ctx b).1.outcome = .ok vb →
        ∃ vs, (s.run limits ctx (a ++ '\n' :: b)).1.outcome = .ok vs ∧
          vs.map Value.unplaced = (va ++ vb).map Value.unplaced ∧
          (s.run limits ctx (a ++ '\n' :: b)).2.env.unplaced =
            ((s.run limits ctx a).2.run limits ctx b).2.env.unplaced := by
  have hjoined := Program.ofSource_lines ha hb hquotes hsign
  refine ⟨hjoined, ?_⟩
  intro limits ctx s va vb hlimit hundisturbed hva hvb
  subst hlimit
  rw [run_of_ofSource ha] at hva hvb ⊢
  rw [run_of_ofSource hb] at hvb ⊢
  rw [run_of_ofSource hjoined]
  exact hundisturbed.exec_append_mapPos hva hvb _

/-- A name that the first source binds is read by the second: `x=1` and below it `x`. -/
theorem run_lines_assignment :
    let a := ['x', '=', '1']
    let b := ['x']
    let s := Session.start []
    let first : Expr := .assign "x" ⟨1, 1⟩ (.num (.int 1) ⟨1, 3⟩)
    let one : Value := .number ⟨.int 1, ⟨1, 3⟩⟩
    Program.ofSource 512 a = .ok [first] ∧ Program.ofSource 512 b = .ok [.var "x" ⟨1, 1⟩] ∧
      Even (a.count '"') ∧ BeginsUnsigned b ∧
      Program.ofSource 512 (a ++ '\n' :: b) = .ok [first, .var "x" ⟨2, 1⟩] ∧
      (s.run {} {} a).1.outcome = .ok [one] ∧
      ((s.run {} {} a).2.run {} {} b).1.outcome = .ok [one] ∧
      ∃ vs, (s.run {} {} (a ++ '\n' :: b)).1.outcome = .ok vs ∧
        vs.map Value.unplaced = [one, one].map Value.unplaced ∧
        (s.run {} {} (a ++ '\n' :: b)).2.env.unplaced =
          ((s.run {} {} a).2.run {} {} b).2.env.unplaced := by
  intro a b s first one
  have hname : Lexeme .word ['x'] .identifier "x" :=
    @Lexeme.word 'x' [] "x" (by decide) (by simp) (by decide)
  have hequals : Lexeme .operator ['='] .assign "=" := .operator (by decide)
  have hnumber : Lexeme .number ['1'] .int "1" :=
    .integer (by simp) (List.forall_mem_singleton.2 (by decide))
  have hasplits : Splits a [.lexeme ['x'] .identifier "x", .lexeme ['='] .assign "=",
      .lexeme ['1'] .int "1"] [] := by
    refine .lexeme hname ?_ (.lexeme hequals (longest_operator (by decide)) ?_)
    · exact (longest_word_iff (by decide) (by simp)).2 (headFails_cons.2 (by decide))
    · exact .lexeme hnumber (hnumber.longest_of_delimits delimits_nil) .done
  have hbsplits : Splits b [.lexeme ['x'] .identifier "x"] [] :=
    .lexeme hname (hname.longest_of_delimits delimits_nil) .done
  have hatom {d : Nat} {e : Expr} {ts : List Token} (hd : d < 512)
      (h : Reads 512 (d + 1) (.phrase .atom) e ts) : Reads 512 d (.phrase .statement) e ts :=
    .expression (.inr hd) (.first (.compared (.first (.first (.first (.unsigned (.first h)))))))
  have ha : Program.ofSource 512 a = .ok [first] := by
    have hone : Reads 512 2 (.phrase .atom) (.num (.int 1) ⟨1, 3⟩) [⟨.int, "1", ⟨1, 3⟩⟩] :=
      @Reads.number 512 2 ⟨.int, "1", ⟨1, 3⟩⟩ _ (.inl rfl) (.int rfl rfl)
    have hassign : Reads 512 0 (.phrase .statement) first
        [⟨.identifier, "x", ⟨1, 1⟩⟩, ⟨.assign, "=", ⟨1, 2⟩⟩, ⟨.int, "1", ⟨1, 3⟩⟩] :=
      @Reads.assign 512 0 ⟨.identifier, "x", ⟨1, 1⟩⟩ ⟨.assign, "=", ⟨1, 2⟩⟩ _ _
        (.inr (by decide)) rfl rfl (hatom (by decide) hone)
    exact Program.ofSource_eq_ok_iff.2 ⟨_, hasplits, .cons (by simp) hassign .nil⟩
  have hb : Program.ofSource 512 b = .ok [.var "x" ⟨1, 1⟩] := by
    have hvar : Reads 512 1 (.phrase .atom) (.var "x" ⟨1, 1⟩) [⟨.identifier, "x", ⟨1, 1⟩⟩] :=
      @Reads.named 512 1 ⟨.identifier, "x", ⟨1, 1⟩⟩ rfl
    exact Program.ofSource_eq_ok_iff.2
      ⟨_, hbsplits, .cons (by simp) (hatom (by decide) hvar) .nil⟩
  have hsign : BeginsUnsigned b := by
    intro t ts hscan
    rw [Token.scan_of_splits hbsplits] at hscan
    cases hscan
    decide
  have hva : (s.run {} {} a).1.outcome = .ok [one] := by
    rw [run_of_ofSource ha]
    rfl
  have hvb : ((s.run {} {} a).2.run {} {} b).1.outcome = .ok [one] := by
    rw [run_of_ofSource hb, run_of_ofSource ha]
    rfl
  have hquotes : Even (a.count '"') := by decide
  rcases run_lines ha hb hquotes hsign with ⟨hjoined, hruns⟩
  exact ⟨ha, hb, hquotes, hsign, hjoined, hva, hvb, hruns {} {} s _ _ rfl rfl hva hvb⟩

end Session
end Reckoner
