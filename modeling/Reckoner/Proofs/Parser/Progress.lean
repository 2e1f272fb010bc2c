import Reckoner.Proofs.Parser.FirstFault

/-!
# The parser goes on

The cursor of the parser goes through the list of tokens one token after another and is never to be
moved from the end of input. So it never stays where it is, and never leaves the list.

* `Cursor.Advances` — a cursor that has gone on token by token;
* `statement_advances` — a statement that comes to something has moved the cursor;
* `Program.ofTokens_cut` — what stands behind the end of input makes no difference;
* `Program.ofTokens_walks` — the parser ends, goes on and does not look past the end of input.
-/

namespace Reckoner
namespace Parser

/-- From one place in the list to another the cursor went on token by token, over none that is the
end of input. -/
structure Cursor.Advances (tokens : List Token) (c after : Cursor) : Prop where
  moves : after.moves = (List.range' c.pos (after.pos - c.pos)).reverse ++ c.moves
  le : c.pos ≤ after.pos
  inside : after.pos < tokens.length
  words : ∀ i, c.pos ≤ i → i < after.pos → ∃ t, tokens[i]? = some t ∧ t.kind ≠ .eof

variable {r : Rules} {calls : Nat} {us : List Token}

theorem Cursor.Gone.advances {tokens taken mid : List Token} {c after : Cursor}
    (hgone : c.Gone taken.length after)
    (hdrop : tokens.drop c.pos = (taken ++ mid) ++ [r.stop]) (hfree : ∀ t ∈ taken, t.kind ≠ .eof) :
    c.Advances tokens after where
  moves := by rw [hgone.pos, Nat.add_sub_cancel_left, hgone.moves]
  le := by simp [hgone.pos]
  inside := by
    have hlength := congrArg List.length hdrop
    simp only [List.length_drop, List.length_append, List.length_singleton] at hlength
    rw [hgone.pos]
    omega
  words i hlow hhigh := by
    rw [hgone.pos] at hhigh
    obtain ⟨j, rfl⟩ := Nat.exists_eq_add_of_le hlow
    have hj : j < taken.length := by omega
    refine ⟨taken[j], ?_, hfree _ (List.getElem_mem hj)⟩
    rw [← List.getElem?_drop, hdrop, List.append_assoc, List.getElem?_append_left hj,
      List.getElem?_eq_getElem hj]

/-- A statement that comes to something has moved the cursor. -/
theorem statement_advances (hstop : r.stop.kind = .eof) {tokens : List Token} {c : Cursor}
    (hdrop : tokens.drop c.pos = us ++ [r.stop]) (hcalls : 12 * us.length + 10 ≤ calls) :
    ∃ outcome after, Walk.phrase r.limit calls .statement tokens c = some (outcome, after) ∧
      c.Advances tokens after ∧ ∀ e, outcome = .ok e → c.pos < after.pos := by
  obtain ⟨taken, mid, after, rfl, hfree, hrun, hgone, hleft⟩ :=
    (follows hstop calls).phrase .statement c.depth us hcalls tokens c rfl hdrop
  refine ⟨_, _, hrun, hgone.advances hdrop hfree, fun e he => ?_⟩
  cases hy : plain .statement c.depth r (taken ++ mid) with
  | error fault =>
      rw [hy] at he
      cases he
  | ok answer =>
      have hshorter := plain_shorter hy
      rw [(hleft _ _ hy).1, List.length_append] at hshorter
      rw [hgone.pos]
      omega

end Parser

open Reckoner.Parser

/-- What stands behind an end of input makes no difference. -/
theorem Program.ofTokens_cut (limit : Nat) (before : List Token) {stop : Token}
    (hstop : stop.kind = .eof) (after : List Token) :
    Program.ofTokens limit (before ++ stop :: after) =
      Program.ofTokens limit (before ++ [stop]) := by
  rw [Program.ofTokens_concat hstop]
  -- The program takes tokens in front of the end of input and looks at one more, the end at most.
  obtain ⟨taken, rest, rfl, -, hfollows⟩ := program_local (r := ⟨limit, stop⟩) hstop before
  obtain ⟨others, hothers⟩ :
      ∃ others, rest ++ stop :: after = Rules.current ⟨limit, stop⟩ rest :: others := by
    cases rest with
    | nil => exact ⟨after, rfl⟩
    | cons t rest => exact ⟨rest ++ stop :: after, rfl⟩
  obtain ⟨r, us, htokens, hlimit, hkind, hcurrent⟩ :=
    Program.ofTokens_front limit taken (Rules.current ⟨limit, stop⟩ rest) others
  have hlong := hfollows id r us ⟨hlimit, hkind, hcurrent⟩
  have hshort := hfollows id ⟨limit, stop⟩ rest ⟨rfl, hstop, rfl⟩
  rw [List.map_congr_left fun t _ => Token.mapPos_id t, List.map_id'] at hlong hshort
  rw [List.append_assoc, hothers, htokens, hlong, ← hshort]

/-- Whatever the tokens and the limit of nesting, the parser ends: with calls enough for the number
of its tokens it comes to the program or the fault, and has gone through the list token by token, up
to the first end of input at most. Wherever in the list a statement is begun, it goes on by at least
one token unless it fails. And the outcome is that for the tokens up to an end of input. -/
theorem Program.ofTokens_walks (limit : Nat) (tokens : List Token) :
    (∀ calls, 12 * (Walk.given tokens).length ≤ calls →
      (∃ after, Walk.program limit calls (Walk.given tokens) .start =
          some (Program.ofTokens limit tokens, after) ∧
        Cursor.start.Advances (Walk.given tokens) after) ∧
      ∀ c : Cursor, c.pos < (Walk.given tokens).length → ∃ outcome after,
        Walk.phrase limit calls .statement (Walk.given tokens) c = some (outcome, after) ∧
          c.Advances (Walk.given tokens) after ∧ ∀ e, outcome = .ok e → c.pos < after.pos) ∧
      ∀ before stop after, tokens = before ++ stop :: after → stop.kind = .eof →
        Program.ofTokens limit tokens = Program.ofTokens limit (before ++ [stop]) := by
  have hstop := endToken_kind tokens
  refine ⟨fun calls hcalls => ⟨?_, fun c hc => ?_⟩, ?_⟩
  · obtain ⟨taken, mid, after, hinner, hfree, hrun, hgone⟩ := ofTokens_follows limit tokens hcalls
    have hdrop : (Walk.given tokens).drop Cursor.start.pos =
        (taken ++ mid) ++ [endToken tokens] := by rw [given_eq, hinner]; rfl
    exact ⟨after, hrun, hgone.advances (r := ⟨limit, endToken tokens⟩) hdrop hfree⟩
  · rw [given_eq, List.length_append, List.length_singleton] at hcalls hc
    rw [given_eq]
    have hdrop : (innerTokens tokens ++ [endToken tokens]).drop c.pos =
        (innerTokens tokens).drop c.pos ++ [endToken tokens] :=
      List.drop_append_of_le_length (by omega)
    refine statement_advances (r := ⟨limit, endToken tokens⟩) hstop hdrop ?_
    rw [List.length_drop]
    omega
  · rintro before stop after rfl hkind
    exact Program.ofTokens_cut limit before hkind after

end Reckoner
