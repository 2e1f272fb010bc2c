import Reckoner.Expr.Parser

/-!
# Where parsing fails

Every production looks at the tokens before it and at the end-of-input token, and at nothing else.
So a fault of the parser is reported at one of these tokens.

* `Located` — an outcome that is right, or a fault at a token;
* `Located.bind` and its companions — the rules for it;
* `statement_located` and its companions — the productions;
* `Program.fault_at_token` — whole programs.
-/

namespace Reckoner
namespace Parser

/-- The outcome has a property, or is a fault at one of the tokens. -/
def Located {α : Type} (tokens : List Token) (Q : α → Prop) : Except Fault α → Prop
  | .ok a => Q a
  | .error fault => ∃ t ∈ tokens, t.pos = fault.pos

/-- What a production leaves over is among the tokens, and its faults are at them. -/
abbrev Stays {α : Type} {before : List Token} (tokens : List Token) (x : Step α before) : Prop :=
  Located tokens (·.rest ⊆ tokens) x

namespace Located

variable {α β : Type} {tokens : List Token} {r : Rules} {ts : List Token}

theorem of_error {Q : α → Prop} {x : Except Fault α} {fault : Fault} (hx : Located tokens Q x)
    (h : x = .error fault) : ∃ t ∈ tokens, t.pos = fault.pos := by
  rwa [h] at hx

theorem bind {Q : α → Prop} {R : β → Prop} {x : Except Fault α} {f : α → Except Fault β}
    (hx : Located tokens Q x) (hf : ∀ a, Q a → Located tokens R (f a)) :
    Located tokens R (x >>= f) := by
  cases x with
  | ok a => exact hf a hx
  | error fault => exact hx

theorem enter (hstop : r.stop ∈ tokens) (hts : ts ⊆ tokens) (depth : Nat) :
    Located tokens (fun _ => True) (r.enter depth ts) := by
  unfold Rules.enter
  split
  · refine ⟨_, ?_, rfl⟩
    cases ts with
    | nil => exact hstop
    | cons t rest => exact hts List.mem_cons_self
  · trivial

theorem expect (hstop : r.stop ∈ tokens) (hts : ts ⊆ tokens) (wanted : Wanted) :
    Stays tokens (r.expect wanted ts) := by
  cases ts with
  | nil => exact ⟨_, hstop, rfl⟩
  | cons t rest =>
      have ⟨ht, hrest⟩ := List.cons_subset.1 hts
      rw [Rules.expect]
      split
      · exact hrest
      · exact ⟨t, ht, rfl⟩

theorem literal {t : Token} (ht : t ∈ tokens) :
    Located tokens (fun _ => True) (literal t) := by
  unfold Parser.literal
  dsimp only
  split
  · trivial
  · exact ⟨t, ht, rfl⟩

end Located

/-! ## The productions -/

section Productions

variable {tokens : List Token} {r : Rules}

mutual

theorem statement_located (hstop : r.stop ∈ tokens) (depth : Nat) (ts : List Token) :
    ts ⊆ tokens → Stays tokens (statement r depth ts) := by
  unfold statement
  cases ts with
  | nil =>
      intro hts
      cases hdepth : r.enter depth [] with
      | error fault => exact (Located.enter hstop hts depth).of_error hdepth
      | ok deeper => exact climb_located hstop deeper .logic [] hts
  | cons t rest =>
      intro hts
      have ⟨ht, hrest⟩ := List.cons_subset.1 hts
      cases hdepth : r.enter depth (t :: rest) with
      | error fault => exact (Located.enter hstop hts depth).of_error hdepth
      | ok deeper =>
          dsimp only
          split
          · refine .bind (.expect hstop hrest .openParen) fun left hleft => ?_
            exact .bind (.expect hstop hleft .closeParen) fun _ _ => ⟨t, ht, rfl⟩
          split
          · refine .bind (.expect hstop hrest .identifier) fun name hname => ?_
            refine .bind (.expect hstop hname .equals) fun equals hequals => ?_
            have := name.shorter
            have := equals.shorter
            exact .bind (statement_located hstop deeper equals.rest hequals) fun _ h => h
          cases rest with
          | nil => exact climb_located hstop deeper .logic [t] hts
          | cons equals more =>
              dsimp only
              split
              · have hmore := (List.cons_subset.1 hrest).2
                exact .bind (statement_located hstop deeper more hmore) fun _ h => h
              · exact climb_located hstop deeper .logic (t :: equals :: more) hts
termination_by (ts.length, 14)
decreasing_by
  all_goals (simp only [Prod.lex_def, Level.rank, List.length_cons, true_and]; omega)

theorem climb_located (hstop : r.stop ∈ tokens) (depth : Nat) (level : Level) (ts : List Token)
    (hts : ts ⊆ tokens) : Stays tokens (climb r depth level ts) := by
  unfold climb
  refine .bind (leading_located hstop depth level ts hts) fun first hfirst => ?_
  have := first.shorter
  exact chain_located hstop depth level first.value first.rest first.shorter hfirst
termination_by (ts.length, level.rank + 1)
decreasing_by all_goals (simp only [Prod.lex_def, Level.rank, true_and]; omega)

theorem leading_located (hstop : r.stop ∈ tokens) (depth : Nat) (level : Level) (ts : List Token)
    (hts : ts ⊆ tokens) : Stays tokens (leading r depth level ts) := by
  unfold leading
  cases level with
  | logic => exact comparison_located hstop depth ts hts
  | comparison => exact climb_located hstop depth .sum ts hts
  | sum => exact climb_located hstop depth .product ts hts
  | product => exact factor_located hstop depth ts hts
  | power => exact atom_located hstop depth ts hts
termination_by (ts.length, level.rank)
decreasing_by all_goals (simp only [Prod.lex_def, Level.rank, true_and]; omega)

theorem trailing_located (hstop : r.stop ∈ tokens) (depth : Nat) (level : Level) (ts : List Token)
    (hts : ts ⊆ tokens) : Stays tokens (trailing r depth level ts) := by
  have := level.rank_le
  unfold trailing
  split
  · exact factor_located hstop depth ts hts
  · exact leading_located hstop depth level ts hts
termination_by (ts.length, 13)
decreasing_by all_goals (simp only [Prod.lex_def, true_and]; omega)

theorem chain_located (hstop : r.stop ∈ tokens) (depth : Nat) (level : Level)
    {before : List Token} (left : Expr) :
    ∀ (ts : List Token) (hshorter : ts.length < before.length), ts ⊆ tokens →
      Stays tokens (chain r depth level left ts hshorter)
  | [], hshorter, hts => by
      unfold chain
      exact hts
  | t :: rest, hshorter, hts => by
      unfold chain
      dsimp only
      split
      · have hrest := (List.cons_subset.1 hts).2
        refine .bind (trailing_located hstop depth level rest hrest) fun right hright => ?_
        have := right.shorter
        exact chain_located hstop depth level _ right.rest _ hright
      · exact hts
termination_by ts => (ts.length, 14)
decreasing_by all_goals (simp only [Prod.lex_def, List.length_cons]; omega)

theorem comparison_located (hstop : r.stop ∈ tokens) (depth : Nat) (ts : List Token) :
    ts ⊆ tokens → Stays tokens (comparison r depth ts) := by
  unfold comparison
  cases ts with
  | nil => exact climb_located hstop depth .comparison []
  | cons t rest =>
      intro hts
      dsimp only
      split
      · have hrest := (List.cons_subset.1 hts).2
        refine .bind (.enter hstop hts depth) fun deeper _ => ?_
        exact .bind (comparison_located hstop deeper rest hrest) fun _ h => h
      · exact climb_located hstop depth .comparison (t :: rest) hts
termination_by (ts.length, 11)
decreasing_by
  all_goals (simp only [Prod.lex_def, Level.rank, List.length_cons, true_and]; omega)

theorem factor_located (hstop : r.stop ∈ tokens) (depth : Nat) (ts : List Token) :
    ts ⊆ tokens → Stays tokens (factor r depth ts) := by
  unfold factor
  cases ts with
  | nil => exact climb_located hstop depth .power []
  | cons t rest =>
      intro hts
      dsimp only
      split
      · have hrest := (List.cons_subset.1 hts).2
        refine .bind (.enter hstop hts depth) fun deeper _ => ?_
        exact .bind (factor_located hstop deeper rest hrest) fun _ h => h
      · exact climb_located hstop depth .power (t :: rest) hts
termination_by (ts.length, 4)
decreasing_by
  all_goals (simp only [Prod.lex_def, Level.rank, List.length_cons, true_and]; omega)

theorem atom_located (hstop : r.stop ∈ tokens) (depth : Nat) (ts : List Token) :
    ts ⊆ tokens → Stays tokens (atom r depth ts) := by
  unfold atom
  cases ts with
  | nil => exact fun _ => ⟨_, hstop, rfl⟩
  | cons t rest =>
      intro hts
      have ⟨ht, hrest⟩ := List.cons_subset.1 hts
      dsimp only
      by_cases hint : t.kind = .int
      · simp only [hint]
        exact .bind (.literal ht) fun _ _ => hrest
      by_cases hfloat : t.kind = .float
      · simp only [hfloat]
        exact .bind (.literal ht) fun _ _ => hrest
      by_cases hname : t.kind = .identifier
      · simp only [hname]
        exact hrest
      by_cases hopen : t.kind = .openParen
      · simp only [hopen]
        exact parens_located hstop depth (t :: rest) hts
      simp only
      split
      · refine .bind (conditional_located hstop depth rest hrest) fun first hfirst => ?_
        have := first.shorter
        exact .bind (chooseArms_located hstop depth first.rest first.shorter hfirst) fun _ h => h
      split
      · refine .bind (statement_located hstop depth rest hrest) fun subject hsubject => ?_
        have := subject.shorter
        exact .bind (selectArms_located hstop depth subject.rest subject.shorter hsubject)
          fun _ h => h
      split
      · refine .bind (parens_located hstop depth rest hrest) fun condition hcondition => ?_
        refine .bind (.expect hstop hcondition (.keyword "then")) fun opened hopened => ?_
        have := condition.shorter
        have := opened.shorter
        exact .bind (loopBody_located hstop depth opened.rest opened.shorter hopened) fun _ h => h
      · exact ⟨t, ht, rfl⟩
termination_by (ts.length, 1)
decreasing_by all_goals (simp only [Prod.lex_def, List.length_cons, true_and]; omega)

theorem parens_located (hstop : r.stop ∈ tokens) (depth : Nat) (ts : List Token)
    (hts : ts ⊆ tokens) : Stays tokens (parens r depth ts) := by
  unfold parens
  refine .bind (.expect hstop hts .openParen) fun left hleft => ?_
  have := left.shorter
  refine .bind (statement_located hstop depth left.rest hleft) fun inner hinner => ?_
  exact .bind (.expect hstop hinner .closeParen) fun _ h => h
termination_by (ts.length, 0)
decreasing_by all_goals (simp only [Prod.lex_def]; omega)

theorem conditional_located (hstop : r.stop ∈ tokens) (depth : Nat) (ts : List Token)
    (hts : ts ⊆ tokens) : Stays tokens (conditional r depth ts) := by
  unfold conditional
  refine .bind (parens_located hstop depth ts hts) fun condition hcondition => ?_
  refine .bind (.expect hstop hcondition (.keyword "then")) fun opened hopened => ?_
  have := condition.shorter
  have := opened.shorter
  exact .bind (statement_located hstop depth opened.rest hopened) fun _ h => h
termination_by (ts.length, 1)
decreasing_by all_goals (simp only [Prod.lex_def, true_and]; omega)

theorem chooseArms_located (hstop : r.stop ∈ tokens) (depth : Nat) {before : List Token} :
    ∀ (ts : List Token) (hshorter : ts.length < before.length), ts ⊆ tokens →
      Stays tokens (chooseArms r depth ts hshorter)
  | [], hshorter, hts => by
      unfold chooseArms
      exact .bind (.expect hstop hts (.keyword "endif")) fun _ h => h
  | t :: rest, hshorter, hts => by
      have hrest := (List.cons_subset.1 hts).2
      unfold chooseArms
      dsimp only
      split
      · refine .bind (conditional_located hstop depth rest hrest) fun case hcase => ?_
        have := case.shorter
        exact .bind (chooseArms_located hstop depth case.rest _ hcase) fun _ h => h
      split
      · refine .bind (statement_located hstop depth rest hrest) fun last hlast => ?_
        exact .bind (.expect hstop hlast (.keyword "endif")) fun _ h => h
      · exact .bind (.expect hstop hts (.keyword "endif")) fun _ h => h
termination_by ts => (ts.length, 14)
decreasing_by all_goals (simp only [Prod.lex_def, List.length_cons]; omega)

theorem selectArms_located (hstop : r.stop ∈ tokens) (depth : Nat) {before : List Token} :
    ∀ (ts : List Token) (hshorter : ts.length < before.length), ts ⊆ tokens →
      Stays tokens (selectArms r depth ts hshorter)
  | [], hshorter, hts => by
      unfold selectArms
      exact .bind (.expect hstop hts (.keyword "endswitch")) fun _ h => h
  | t :: rest, hshorter, hts => by
      have hrest := (List.cons_subset.1 hts).2
      unfold selectArms
      dsimp only
      split
      · refine .bind (statement_located hstop depth rest hrest) fun guard hguard => ?_
        refine .bind (.expect hstop hguard .colon) fun colon hcolon => ?_
        have := guard.shorter
        have := colon.shorter
        refine .bind (statement_located hstop depth colon.rest hcolon) fun body hbody => ?_
        have := body.shorter
        exact .bind (selectArms_located hstop depth body.rest _ hbody) fun _ h => h
      split
      · refine .bind (.expect hstop hrest .colon) fun colon hcolon => ?_
        have := colon.shorter
        refine .bind (statement_located hstop depth colon.rest hcolon) fun last hlast => ?_
        exact .bind (.expect hstop hlast (.keyword "endswitch")) fun _ h => h
      · exact .bind (.expect hstop hts (.keyword "endswitch")) fun _ h => h
termination_by ts => (ts.length, 14)
decreasing_by all_goals (simp only [Prod.lex_def, List.length_cons]; omega)

theorem loopBody_located (hstop : r.stop ∈ tokens) (depth : Nat) {before : List Token} :
    ∀ (ts : List Token) (hshorter : ts.length < before.length), ts ⊆ tokens →
      Stays tokens (loopBody r depth ts hshorter)
  | [], hshorter, hts => by
      unfold loopBody
      exact .bind (.expect hstop hts (.keyword "endwhile")) fun _ h => h
  | t :: rest, hshorter, hts => by
      unfold loopBody
      dsimp only
      split
      · exact .bind (.expect hstop hts (.keyword "endwhile")) fun _ h => h
      · refine .bind (statement_located hstop depth (t :: rest) hts) fun first hfirst => ?_
        have := first.shorter
        exact .bind (loopBody_located hstop depth first.rest _ hfirst) fun _ h => h
termination_by ts => (ts.length, 15)
decreasing_by all_goals (simp only [Prod.lex_def, List.length_cons, true_and] at *; omega)

end

theorem program_located (hstop : r.stop ∈ tokens) (ts : List Token) :
    ts ⊆ tokens → Located tokens (fun _ => True) (program r ts) := by
  unfold program
  cases ts with
  | nil => exact fun _ => trivial
  | cons t rest =>
      intro hts
      dsimp only
      split
      · trivial
      · refine .bind (statement_located hstop 0 (t :: rest) hts) fun first hfirst => ?_
        have := first.shorter
        exact .bind (program_located hstop first.rest hfirst) fun _ _ => trivial
termination_by ts.length
decreasing_by exact first.shorter

end Productions
end Parser

/-! ## Whole programs -/

/-- A program that cannot be read fails at one of its tokens, of which the last is the end of input.
-/
theorem Program.fault_at_token {limit : Nat} {tokens : List Token} {stop : Token}
    (hstop : stop.kind = .eof) {fault : Fault}
    (h : Program.ofTokens limit (tokens ++ [stop]) = .error fault) :
    ∃ t ∈ tokens ++ [stop], t.pos = fault.pos := by
  have hend : endToken (tokens ++ [stop]) = stop := by simp [endToken, hstop]
  have hinner : innerTokens (tokens ++ [stop]) = tokens := by simp [innerTokens, hstop]
  have hmem : stop ∈ tokens ++ [stop] := List.mem_append_right tokens List.mem_cons_self
  rw [Program.ofTokens, hend, hinner] at h
  exact (Parser.program_located hmem tokens (List.subset_append_left _ _)).of_error h

end Reckoner
