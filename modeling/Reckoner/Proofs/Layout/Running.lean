import Reckoner.Proofs.Layout.Scanning
import Reckoner.Proofs.Parser.Prospects
import Reckoner.Proofs.Sessions

/-!
# What sources say in another layout

The parser and the evaluation read kinds and literals of tokens, and places only to report them. So
sources with the same tokens but for places are parsed and run alike but for places, whatever blanks
they have and in whichever case their letters are.

* `Program.ofTokens_mapPos` — tokens in other places are parsed as the tree in those places;
* `Program.ofSource_withoutPlaces` — sources with the same tokens have the same trees or faults;
* `Session.run_withoutPlaces` — and the same runs;
* `Relaid.layout_irrelevant` — sources in another layout are scanned, parsed and run alike.
-/

namespace Reckoner

open Reckoner.Parser

/-! ## Parses -/

/-- Tokens in other places are parsed as the same trees in those places. -/
theorem Program.ofTokens_mapPos (limit : Nat) (f : Position → Position) {ts : List Token}
    {stop : Token} (hstop : stop.kind = .eof) :
    Program.ofTokens limit ((ts ++ [stop]).map (Token.mapPos f)) =
      movedProgram f (Program.ofTokens limit (ts ++ [stop])) := by
  obtain ⟨taken, rest, rfl, -, hfollows⟩ := program_local (r := ⟨limit, stop⟩) hstop ts
  have hcurrent : Rules.current ⟨limit, stop.mapPos f⟩ (rest.map (Token.mapPos f)) =
      (Rules.current ⟨limit, stop⟩ rest).mapPos f := by
    cases rest <;> rfl
  have hmoved : (stop.mapPos f).kind = .eof := hstop
  rw [List.map_append, List.map_singleton, Program.ofTokens_concat hmoved,
    Program.ofTokens_concat hstop, List.map_append]
  exact hfollows f _ _ ⟨rfl, hstop, hcurrent⟩

theorem withoutPlaces_movedProgram (x : Except Fault Program) :
    withoutPlaces id (movedProgram (fun _ => .nowhere) x) =
      withoutPlaces (List.map Expr.unplaced) x := by
  cases x with
  | ok p => rfl
  | error fault =>
      exact congrArg Except.error (Prod.ext fault.mapPos_code fault.mapPos_message)

theorem Program.ofSource_withoutPlaces {a b : List Char}
    (h : withoutPlaces (List.map Token.unplaced) (Token.scan a) =
      withoutPlaces (List.map Token.unplaced) (Token.scan b)) (limit : Nat) :
    withoutPlaces (List.map Expr.unplaced) (Program.ofSource limit a) =
      withoutPlaces (List.map Expr.unplaced) (Program.ofSource limit b) := by
  unfold Program.ofSource
  cases ha : Token.scan a with
  | error fault =>
      cases hb : Token.scan b with
      | error fault' =>
          rw [ha, hb] at h
          exact congrArg Except.error (Except.error.inj h)
      | ok tokens' => rw [ha, hb] at h; cases h
  | ok tokens =>
      cases hb : Token.scan b with
      | error fault' => rw [ha, hb] at h; cases h
      | ok tokens' =>
          rw [ha, hb] at h
          have htokens : tokens.map Token.unplaced = tokens'.map Token.unplaced := Except.ok.inj h
          obtain ⟨ts, stop, hstop, rfl⟩ := Token.exists_stop ha
          obtain ⟨ts', stop', hstop', rfl⟩ := Token.exists_stop hb
          -- Both are parsed like the tokens without places, which are the same.
          change withoutPlaces _ (Program.ofTokens limit _) =
            withoutPlaces _ (Program.ofTokens limit _)
          rw [← withoutPlaces_movedProgram, ← withoutPlaces_movedProgram,
            ← Program.ofTokens_mapPos limit _ hstop, ← Program.ofTokens_mapPos limit _ hstop']
          exact congrArg (fun tokens => withoutPlaces id (Program.ofTokens limit tokens)) htokens

/-! ## Runs -/

/-- The class and the words of the fault that a run stops with; an unfinished loop has none. -/
def Halt.said : Halt → Option (Code × String)
  | .fault f => some f.said
  | .unfinished _ => none

/-- What a run comes to, without places. -/
def Reply.withoutPlaces (reply : Reply) : Except (Option (Code × String)) (List Value) :=
  (reply.outcome.map (List.map Value.unplaced)).mapError Halt.said

theorem Halt.said_of_cause? {halt halt' : Halt} (h : halt.cause? = halt'.cause?) :
    halt.said = halt'.said := by
  cases halt with
  | fault f =>
      cases halt' with
      | fault f' =>
          have hcause : f.cause = f'.cause := Option.some.inj h
          exact congrArg (fun cause : Cause => some (cause.code, cause.message)) hcause
      | unfinished pos' => cases h
  | unfinished pos =>
      cases halt' with
      | fault f' => cases h
      | unfinished pos' => rfl

theorem Expr.evalAll_alike_of_unplaced (budget : Budget) {p p' : Program}
    (h : p.map Expr.unplaced = p'.map Expr.unplaced) :
    Alike placeFree (fun vs vs' => vs.map Value.unplaced = vs'.map Value.unplaced)
      (Expr.evalAll budget p) (Expr.evalAll budget p') := by
  induction p generalizing p' with
  | nil =>
      obtain rfl : p' = [] := List.map_eq_nil_iff.1 h.symm
      exact .pure rfl
  | cons e p ih =>
      obtain ⟨e', rest, rfl, he, hrest⟩ := List.map_eq_cons_iff.1 h.symm
      rw [Expr.evalAll, Expr.evalAll]
      refine .bind (Expr.eval_alike_of_unplaced he.symm budget) fun v v' hv => ?_
      refine .bind (ih hrest.symm) fun vs vs' hvs => .pure ?_
      rw [List.map_cons, List.map_cons, hv, hvs]

namespace Session

theorem exec_withoutPlaces (limits : Limits) (ctx : Context) {p p' : Program}
    (hp : p.map Expr.unplaced = p'.map Expr.unplaced) {s s' : Session}
    (hs : s.env.unplaced = s'.env.unplaced) :
    (s.exec limits ctx p).1.withoutPlaces = (s'.exec limits ctx p').1.withoutPlaces ∧
      (s.exec limits ctx p).2.env.unplaced = (s'.exec limits ctx p').2.env.unplaced := by
  obtain ⟨houtcome, henv⟩ := exec_eq limits ctx p s
  obtain ⟨houtcome', henv'⟩ := exec_eq limits ctx p' s'
  -- Both are called off at the same look, if they are at all.
  obtain ⟨halike, hafter⟩ := Expr.evalAll_alike_of_unplaced (ctx.budget limits) hp
    (s.begun limits ctx) (s'.begun limits ctx) ⟨hs, rfl⟩
  refine ⟨?_, by rw [henv, henv']; exact hafter.envs⟩
  rw [Reply.withoutPlaces, Reply.withoutPlaces, houtcome, houtcome']
  generalize (Expr.evalAll (ctx.budget limits) p (s.begun limits ctx)).1 = x at halike ⊢
  generalize (Expr.evalAll (ctx.budget limits) p' (s'.begun limits ctx)).1 = x' at halike ⊢
  cases halike with
  | ok hvalues => exact congrArg Except.ok hvalues
  | error hcause => exact congrArg Except.error (Halt.said_of_cause? hcause)

theorem run_withoutPlaces (limits : Limits) (ctx : Context) {a b : List Char}
    (h : Reckoner.withoutPlaces (List.map Expr.unplaced) (Program.ofSource limits.depth a) =
      Reckoner.withoutPlaces (List.map Expr.unplaced) (Program.ofSource limits.depth b))
    {s s' : Session} (hs : s.env.unplaced = s'.env.unplaced) :
    (s.run limits ctx a).1.withoutPlaces = (s'.run limits ctx b).1.withoutPlaces ∧
      (s.run limits ctx a).2.env.unplaced = (s'.run limits ctx b).2.env.unplaced := by
  unfold run
  cases ha : Program.ofSource limits.depth a with
  | error fault =>
      cases hb : Program.ofSource limits.depth b with
      | error fault' =>
          rw [ha, hb] at h
          exact ⟨congrArg (fun words => Except.error (some words)) (Except.error.inj h), hs⟩
      | ok p' => rw [ha, hb] at h; cases h
  | ok p =>
      cases hb : Program.ofSource limits.depth b with
      | error fault' => rw [ha, hb] at h; cases h
      | ok p' =>
          rw [ha, hb] at h
          exact exec_withoutPlaces limits ctx (Except.ok.inj h) hs

end Session

/-- Sources that differ outside strings only, in their blanks, where both have some, and in the case
of ASCII letters: both have the same tokens, the same trees under each limit on nesting, and in
sessions that bind the same also the same runs, all but for places, or they fail in the same words.
-/
theorem Relaid.layout_irrelevant {a b : List Char} (h : Relaid 0 a b) :
    withoutPlaces (List.map Token.unplaced) (Token.scan a) =
        withoutPlaces (List.map Token.unplaced) (Token.scan b) ∧
      (∀ limit, withoutPlaces (List.map Expr.unplaced) (Program.ofSource limit a) =
        withoutPlaces (List.map Expr.unplaced) (Program.ofSource limit b)) ∧
      ∀ (limits : Limits) (ctx : Context) (s s' : Session), s.env.unplaced = s'.env.unplaced →
        (s.run limits ctx a).1.withoutPlaces = (s'.run limits ctx b).1.withoutPlaces ∧
          (s.run limits ctx a).2.env.unplaced = (s'.run limits ctx b).2.env.unplaced := by
  have hscan := Token.scan_relaid h
  have hparse := Program.ofSource_withoutPlaces hscan
  exact ⟨hscan, hparse, fun limits ctx _ _ hs => Session.run_withoutPlaces limits ctx (hparse _) hs⟩

/-- Blanks and letters differ behind the string, and are the same within it. -/
theorem Relaid.layout_irrelevant_string :
    let a := ['"', 'A', ' ', 'b', '"', ' ', 'N', 'O', 't', '\n', '1']
    let b := ['"', 'A', ' ', 'b', '"', '\t', '\t', 'n', 'o', 'T', ' ', '1']
    Relaid 0 a b ∧
      withoutPlaces (List.map Token.unplaced) (Token.scan a) =
        withoutPlaces (List.map Token.unplaced) (Token.scan b) ∧
      (∀ limit, withoutPlaces (List.map Expr.unplaced) (Program.ofSource limit a) =
        withoutPlaces (List.map Expr.unplaced) (Program.ofSource limit b)) ∧
      ∀ (limits : Limits) (ctx : Context) (s : Session),
        (s.run limits ctx a).1.withoutPlaces = (s.run limits ctx b).1.withoutPlaces ∧
          (s.run limits ctx a).2.env.unplaced = (s.run limits ctx b).2.env.unplaced := by
  intro a b
  have hword : Relaid 2 ['N', 'O', 't', '\n', '1'] ['n', 'o', 'T', ' ', '1'] := by
    refine .letter (by decide) rfl rfl rfl (.letter (by decide) rfl rfl rfl ?_)
    refine .letter (by decide) rfl rfl rfl ?_
    exact @Relaid.blanks 2 ['\n'] [' '] ['1'] ['1'] (by decide) (by simp) (by simp)
      (List.forall_mem_singleton.2 rfl) (List.forall_mem_singleton.2 rfl) (.same .nil)
  have h : Relaid 0 a b := by
    refine .same (.same (.same (.same (.same ?_))))
    exact @Relaid.blanks 2 [' '] ['\t', '\t'] _ _ (by decide) (by simp) (by simp)
      (List.forall_mem_singleton.2 rfl)
      (List.forall_mem_cons.2 ⟨rfl, List.forall_mem_singleton.2 rfl⟩) hword
  obtain ⟨hscan, hparse, hrun⟩ := h.layout_irrelevant
  exact ⟨h, hscan, hparse, fun limits ctx s => hrun limits ctx s s rfl⟩

end Reckoner
