import Mathlib.Data.List.Chain
import Reckoner.Proofs.Parser.Nesting

/-!
# The first token that does not fit

Without a limit on nesting a fault of the grammar is reported at the first token with which no
program goes on: what stands behind that token makes no difference, and the tokens in front of it
begin a program, or a program that asks to stop. Tokens of a source stand at different places, so
the place says which token it is.

* `Position.Before` — the order of places in a source;
* `Token.scan_increasing` — the tokens of a source stand in that order;
* `Program.ofTokens_front` — how the parser begins on tokens that begin with others;
* `Program.fault_at_prospect` — a fault stays the same whatever stands behind it;
* `completable_of_fault` — the tokens in front of a fault go on to a program, or to one that stops;
* `Program.fault_at_first_misfit` — all of this for the tokens of a source.
-/

namespace Reckoner

/-! ## The order of places -/

/-- The place comes before the other in every source. -/
def Position.Before (p q : Position) : Prop :=
  p.line < q.line ∨ (p.line = q.line ∧ p.column < q.column)

namespace Position

theorem Before.trans {p q s : Position} (h : p.Before q) (h' : q.Before s) : p.Before s := by
  unfold Before at *
  omega

theorem Before.ne {p q : Position} (h : p.Before q) : p ≠ q := by
  rintro rfl
  unfold Before at h
  omega

theorem before_next (p : Position) (c : Char) : p.Before (p.next c) := by
  unfold Before next
  split <;> dsimp only <;> omega

/-- A text ends no earlier than it begins. -/
theorem eq_or_before_past (p : Position) (text : List Char) :
    p = p.past text ∨ p.Before (p.past text) := by
  induction text generalizing p with
  | nil => exact .inl rfl
  | cons c cs ih =>
      refine .inr ?_
      change p.Before ((p.next c).past cs)
      rcases ih (p.next c) with heq | hbefore
      · exact heq ▸ p.before_next c
      · exact (p.before_next c).trans hbefore

theorem past_dropLast_before (p : Position) {text : List Char} (h : text ≠ []) :
    (p.past text.dropLast).Before (p.past text) := by
  conv => rhs; rw [← List.dropLast_append_getLast h]
  rw [Position.past_append]
  exact before_next _ _

end Position

/-- The tokens of pieces of which the first begins at `p`, and the end of input behind them. -/
def Segment.closedFrom (p : Position) (segments : List Segment) : List Token :=
  tokensFrom p segments ++ [⟨.eof, "", p.past (segments.flatMap Segment.text)⟩]

/-- The tokens of pieces stand at increasing places, none before the first piece. -/
theorem Splits.increasing {source rest : List Char} {segments : List Segment}
    (h : Splits source segments rest) (p : Position) :
    (∀ t ∈ Segment.closedFrom p segments, p = t.pos ∨ p.Before t.pos) ∧
      (Segment.closedFrom p segments).Pairwise fun t u => t.pos.Before u.pos := by
  induction h generalizing p with
  | done => simp [Segment.closedFrom, Segment.tokensFrom, Position.past]
  | @blank c cs rest segments _ _ ih =>
      obtain ⟨hfrom, hpairwise⟩ := ih (p.next c)
      refine ⟨?_, hpairwise⟩
      intro t ht
      rcases hfrom t ht with heq | hbefore
      · exact .inr (heq ▸ p.before_next c)
      · exact .inr ((p.before_next c).trans hbefore)
  | @lexeme cls text cs rest kind literal segments hlex _ _ ih =>
      obtain ⟨hfrom, hpairwise⟩ := ih (p.past text)
      have hlast := p.past_dropLast_before hlex.ne_nil
      have hclosed : Segment.closedFrom p (.lexeme text kind literal :: segments) =
          ⟨kind, literal, p.past text.dropLast⟩ :: Segment.closedFrom (p.past text) segments := by
        rw [Segment.closedFrom, Segment.closedFrom, List.flatMap_cons, Position.past_append]
        rfl
      -- The token stands at the last character of the piece, all others behind the piece.
      have hbehind : ∀ t ∈ Segment.closedFrom (p.past text) segments,
          (p.past text.dropLast).Before t.pos := by
        intro t ht
        rcases hfrom t ht with heq | hbefore
        · exact heq ▸ hlast
        · exact hlast.trans hbefore
      have hstart := p.eq_or_before_past text.dropLast
      rw [hclosed]
      refine ⟨?_, List.pairwise_cons.2 ⟨hbehind, hpairwise⟩⟩
      intro t ht
      rcases List.mem_cons.1 ht with rfl | ht
      · exact hstart
      · rcases hstart with heq | hbefore
        · exact .inr (heq ▸ hbehind t ht)
        · exact .inr (hbefore.trans (hbehind t ht))
  | @unclosed body _ =>
      simp only [Segment.closedFrom, Segment.tokensFrom, List.nil_append, List.mem_singleton,
        List.pairwise_singleton, and_true]
      rintro t rfl
      exact p.eq_or_before_past _

theorem Token.scan_increasing {source : List Char} {tokens : List Token}
    (h : Token.scan source = .ok tokens) :
    tokens.Pairwise fun t u => t.pos.Before u.pos := by
  obtain ⟨segments, hsplits, rfl⟩ := Token.scan_eq_ok_iff.1 h
  have hpairwise := (hsplits.increasing .start).2
  rwa [Segment.closedFrom, hsplits.text_eq] at hpairwise

/-- Tokens at increasing places are told apart by their places. -/
theorem Token.index_eq_of_pos {tokens : List Token}
    (h : tokens.Pairwise fun t u => t.pos.Before u.pos) {i j : Nat} {t u : Token}
    (ht : tokens[i]? = some t) (hu : tokens[j]? = some u) (hpos : t.pos = u.pos) : i = j := by
  obtain ⟨hi, rfl⟩ := List.getElem?_eq_some_iff.1 ht
  obtain ⟨hj, rfl⟩ := List.getElem?_eq_some_iff.1 hu
  have hordered := List.pairwise_iff_getElem.1 h
  rcases Nat.lt_trichotomy i j with hlt | heq | hgt
  · exact absurd hpos (hordered i j hi hj hlt).ne
  · exact heq
  · exact absurd hpos.symm (hordered j i hj hi hgt).ne

/-! ## Tokens that begin with others -/

open Reckoner.Parser

theorem endToken_append (taken : List Token) (t : Token) (more : List Token) :
    endToken (taken ++ t :: more) = endToken (t :: more) := by
  unfold endToken
  rw [List.getLast?_append_of_ne_nil _ (List.cons_ne_nil t more)]

theorem innerTokens_append (taken : List Token) (t : Token) (more : List Token) :
    innerTokens (taken ++ t :: more) = taken ++ innerTokens (t :: more) := by
  unfold innerTokens
  rw [List.getLast?_append_of_ne_nil _ (List.cons_ne_nil t more)]
  rw [List.getLast?_eq_some_getLast (List.cons_ne_nil t more)]
  dsimp only
  split
  · rw [List.dropLast_append_of_ne_nil (List.cons_ne_nil t more)]
  · rfl

theorem current_innerTokens (limit : Nat) (t : Token) (more : List Token) :
    Rules.current ⟨limit, endToken (t :: more)⟩ (innerTokens (t :: more)) = t := by
  cases more with
  | nil =>
      unfold endToken innerTokens
      rw [List.getLast?_singleton]
      dsimp only
      split <;> rfl
  | cons u us =>
      unfold innerTokens
      rw [List.getLast?_cons_cons, List.getLast?_eq_some_getLast (List.cons_ne_nil u us)]
      dsimp only
      split <;> rfl

/-- The parser meets the first tokens and then the next, which may be the end of input. -/
theorem Program.ofTokens_front (limit : Nat) (taken : List Token) (t : Token) (more : List Token) :
    ∃ r us, Program.ofTokens limit (taken ++ t :: more) = program r (taken ++ us) ∧
      r.limit = limit ∧ r.stop.kind = .eof ∧ r.current us = t := by
  refine ⟨⟨limit, endToken (t :: more)⟩, innerTokens (t :: more), ?_, rfl, endToken_kind _,
    current_innerTokens limit t more⟩
  rw [Program.ofTokens, endToken_append, innerTokens_append]

/-! ## The same fault -/

theorem Token.mapPos_id (t : Token) : t.mapPos id = t :=
  rfl

theorem Fault.mapPos_id (fault : Fault) : fault.mapPos id = fault := by
  rcases fault with ⟨cause, pos⟩
  cases cause <;> rfl

/-- A fault of the grammar is at some token: what stands behind it makes no difference, and the
tokens in front begin a program, unless a request to exit was begun. -/
theorem Program.fault_at_prospect {ts : List Token} {stop : Token} (hstop : stop.kind = .eof)
    {fault : Fault} (h : Program.ofTokens 0 (ts ++ [stop]) = .error fault)
    (hcode : fault.code = .grammar) :
    ∃ taken t more, ts ++ [stop] = taken ++ t :: more ∧ t.pos = fault.pos ∧
      Prospect .statements taken t ∧
        ∀ others, Program.ofTokens 0 (taken ++ t :: others) = .error fault := by
  rw [Program.ofTokens_concat hstop] at h
  obtain ⟨taken, rest, rfl, hfails, hfollows⟩ := program_local (r := ⟨0, stop⟩) hstop ts
  obtain ⟨hpos, hprospect⟩ := hfails fault h hcode
  obtain ⟨more, hmore⟩ :
      ∃ more, rest ++ [stop] = Rules.current ⟨0, stop⟩ rest :: more := by
    cases rest with
    | nil => exact ⟨[], rfl⟩
    | cons t rest => exact ⟨rest ++ [stop], rfl⟩
  refine ⟨taken, _, more, by rw [List.append_assoc, hmore], hpos.symm, hprospect, ?_⟩
  intro others
  obtain ⟨r, us, htokens, hlimit, hkind, hcurrent⟩ :=
    Program.ofTokens_front 0 taken (Rules.current ⟨0, stop⟩ rest) others
  -- The others stand beside these tokens, with no place moved.
  have hsame := hfollows id r us ⟨hlimit, hkind, hcurrent⟩
  rw [List.map_congr_left fun t _ => Token.mapPos_id t, List.map_id'] at hsame
  rw [htokens, hsame, h, movedProgram, Fault.mapPos_id]

/-! ## Requests to exit -/

namespace Parser

/-- The token does not go on with a request to exit that ends with the one in front of it. -/
def Interrupts (last t : Token) : Prop :=
  (last.kind = .keyword ∧ t.kind ≠ .openParen) ∨ (last.kind = .openParen ∧ t.kind ≠ .closeParen)

theorem Pending.interrupts {taken : List Token} {last t : Token}
    (h : Pending (taken ++ [last]) t) : Interrupts last t := by
  obtain ⟨before, exit, hexit, ⟨heq, hkind⟩ | ⟨opening, hopening, heq, hkind⟩⟩ := h
  · obtain rfl : last = exit := by simpa using congrArg List.getLast? heq
    exact .inl ⟨(isKeyword_iff.1 hexit).1, hkind⟩
  · obtain rfl : last = opening := by simpa using congrArg List.getLast? heq
    exact .inr ⟨hopening, hkind⟩

/-- Where no token interrupts the one in front of it, no request to exit is left open. -/
theorem not_pending_of_isChain {before front rest : List Token} {last u : Token}
    (h : (last :: (front ++ u :: rest)).IsChain fun a b => ¬ Interrupts a b) :
    ¬ Pending (before ++ last :: front) u := by
  obtain ⟨init, final, hfinal⟩ : ∃ init final, last :: front = init ++ [final] :=
    ⟨_, _, (List.dropLast_append_getLast (List.cons_ne_nil last front)).symm⟩
  rw [← List.cons_append, hfinal, List.append_assoc, List.singleton_append,
    List.isChain_append_cons_cons] at h
  intro hpending
  rw [hfinal, ← List.append_assoc] at hpending
  exact h.2.1 hpending.interrupts

/-- A request to exit that was begun goes on so that nothing interrupts it. -/
theorem Pending.exists_end {taken : List Token} {t : Token} (h : Pending taken t) :
    ∃ more, ∀ front u rest, more ++ [tokenOf .eof] = front ++ u :: rest →
      ¬ Pending (taken ++ front) u := by
  obtain ⟨before, last, more, rfl, hchain⟩ : ∃ before last more, taken = before ++ [last] ∧
      (last :: (more ++ [tokenOf .eof])).IsChain fun a b => ¬ Interrupts a b := by
    obtain ⟨before, exit, hexit, ⟨rfl, -⟩ | ⟨opening, hopening, rfl, -⟩⟩ := h
    · have hword := (isKeyword_iff.1 hexit).1
      refine ⟨before, exit, [tokenOf .openParen, tokenOf .closeParen], rfl, ?_⟩
      simp [Interrupts, hword, tokenOf_kind]
    · refine ⟨before ++ [exit], opening, [tokenOf .closeParen], by simp, ?_⟩
      simp [Interrupts, hopening, tokenOf_kind]
  refine ⟨more, fun front u rest heq => ?_⟩
  rw [List.append_assoc, List.singleton_append]
  exact not_pending_of_isChain (heq ▸ hchain)

end Parser

/-! ## Programs that begin with the tokens -/

/-- The tokens go on to a program, or to one that asks to stop. -/
def Completable (taken : List Token) : Prop :=
  ∃ more, (∃ program, Program.ofTokens 0 (taken ++ more) = .ok program) ∨
    ∃ fault, Program.ofTokens 0 (taken ++ more) = .error fault ∧ fault.code = .exit

theorem completable_of_viable {taken : List Token} (h : Viable .statements taken) :
    Completable taken := by
  obtain ⟨more, es, hderives⟩ := h
  obtain ⟨program, hreads⟩ := readable_of_derives hderives hderives.exists_value
  refine ⟨more ++ [tokenOf .eof], .inl ⟨program, ?_⟩⟩
  rw [← List.append_assoc, Program.ofTokens_concat (tokenOf_kind .eof)]
  exact program_of_reads hreads

/-- The tokens in front of a fault of the grammar go on to a program, or to one that asks to
stop. -/
theorem completable_of_fault {taken more : List Token} {t : Token} {fault : Fault}
    (hplaces : (taken ++ t :: more).Pairwise fun t u => t.pos.Before u.pos)
    (hpos : t.pos = fault.pos) (hprospect : Prospect .statements taken t)
    (hfault : Program.ofTokens 0 (taken ++ t :: more) = .error fault) : Completable taken := by
  rcases hprospect with hviable | hpending
  · exact completable_of_viable hviable
  -- The request is brought to its end. If the grammar still fails, no request is open there.
  obtain ⟨answer, hanswer⟩ := hpending.exists_end
  cases hrun : Program.ofTokens 0 (taken ++ answer ++ [tokenOf .eof]) with
  | ok program => exact ⟨answer ++ [tokenOf .eof], .inl ⟨program, by rw [← hrun]; simp⟩⟩
  | error other =>
      rcases ordinary_of_ofTokens hrun with hcode | hcode
      · obtain ⟨taken', t', more', htokens', hpos', hprospect', hsame'⟩ :=
          Program.fault_at_prospect (tokenOf_kind .eof) hrun hcode
        have hviable : ∀ front, taken' = taken ++ front →
            answer ++ [tokenOf .eof] = front ++ t' :: more' → Completable taken := by
          rintro front rfl hrest
          exact completable_of_viable
            (hprospect'.resolve_right (hanswer front t' more' hrest)).of_append
        rw [List.append_assoc] at htokens'
        rcases List.append_eq_append_iff.1 htokens' with
          ⟨front, hfront, hrest⟩ | ⟨_ | ⟨u, front⟩, rfl, hrest⟩
        · exact hviable front hfront hrest
        · exact hviable [] (by simp) (by simpa using hrest.symm)
        · -- A fault at a token that was taken would be the fault of the tokens themselves.
          obtain ⟨rfl, -⟩ := List.cons.inj hrest
          rw [List.append_assoc, List.cons_append] at hplaces hfault
          cases (hsame' _).symm.trans hfault
          have hbefore := (List.pairwise_cons.1 (List.pairwise_append.1 hplaces).2.1).1 t (by simp)
          exact absurd (hpos'.trans hpos.symm) hbefore.ne
      · exact ⟨answer ++ [tokenOf .eof], .inr ⟨other, by rw [← hrun]; simp, hcode⟩⟩

/-! ## The first token that does not fit -/

/-- The tokens of a source stand at increasing places, and a fault of the grammar is reported at
the place of one of them. Whatever stands behind that one, the fault is the same; the tokens in
front of it go on to a program, or to one that asks to stop. -/
theorem Program.fault_at_first_misfit {source : List Char} {tokens : List Token}
    (hscan : Token.scan source = .ok tokens) {fault : Fault}
    (hfault : Program.ofTokens 0 tokens = .error fault) (hcode : fault.code = .grammar) :
    (tokens.Pairwise fun t u => t.pos.Before u.pos) ∧
      ∃ i, (∃ t, tokens[i]? = some t ∧ t.pos = fault.pos) ∧
        (∀ j u, tokens[j]? = some u → u.pos = fault.pos → j = i) ∧
        (∀ others, others.take (i + 1) = tokens.take (i + 1) →
          Program.ofTokens 0 others = .error fault) ∧
        Completable (tokens.take i) := by
  have hplaces := Token.scan_increasing hscan
  obtain ⟨ts, stop, hstop, rfl⟩ := Token.exists_stop hscan
  obtain ⟨taken, t, more, htokens, hpos, hprospect, hsame⟩ :=
    Program.fault_at_prospect hstop hfault hcode
  rw [htokens] at hplaces hfault ⊢
  refine ⟨hplaces, taken.length, ⟨t, by simp, hpos⟩, ?_, ?_, ?_⟩
  · intro j u hu hsamePos
    exact Token.index_eq_of_pos hplaces hu (by simp) (hsamePos.trans hpos.symm)
  · intro others hothers
    rw [List.take_length_add_append] at hothers
    rw [← List.take_append_drop (taken.length + 1) others, hothers, List.append_assoc]
    exact hsame _
  · rw [List.take_left]
    exact completable_of_fault hplaces hpos hprospect hfault

/-- A parenthesis has to follow the word that asks to stop, whatever stands behind the number. -/
theorem Program.fault_at_first_misfit_exit :
    let source := ['(', 'e', 'x', 'i', 't', ' ', '1']
    let tokens : List Token := [⟨.openParen, "(", ⟨1, 1⟩⟩, ⟨.keyword, "exit", ⟨1, 5⟩⟩,
      ⟨.int, "1", ⟨1, 7⟩⟩, ⟨.eof, "", ⟨1, 8⟩⟩]
    let fault : Fault := ⟨.unexpected .openParen ⟨.int, "1", ⟨1, 7⟩⟩, ⟨1, 7⟩⟩
    Token.scan source = .ok tokens ∧ Program.ofTokens 0 tokens = .error fault ∧
      fault.code = .grammar ∧
        (∀ others, others.take 3 = tokens.take 3 → Program.ofTokens 0 others = .error fault) ∧
          Completable (tokens.take 2) := by
  intro source tokens fault
  have hparts : ∀ c ∈ ['x', 'i', 't'], Text.isWordPart c := by
    rw [List.forall_mem_cons, List.forall_mem_cons, List.forall_mem_singleton]
    decide
  have hexit : Lexeme .word ['e', 'x', 'i', 't'] .keyword "exit" := .word (by decide) hparts rfl
  have hsplits : Splits source [.lexeme ['('] .openParen "(",
      .lexeme ['e', 'x', 'i', 't'] .keyword "exit", .blank ' ', .lexeme ['1'] .int "1"] [] := by
    refine .lexeme (.operator (by decide)) (longest_operator (by decide)) ?_
    refine .lexeme hexit ?_ (.blank (by decide) ?_)
    · exact (longest_word_iff (by decide) hparts).2 (headFails_cons.2 (by decide))
    · exact .digit (by decide) (headFails_nil _) .done
  have hscan : Token.scan source = .ok tokens := Token.scan_of_splits hsplits
  have hfault : Program.ofTokens 0 tokens = .error fault := Program.ofTokens_of_walk rfl
  obtain ⟨-, i, -, hunique, hsame, hcompletable⟩ :=
    Program.fault_at_first_misfit hscan hfault rfl
  obtain rfl : 2 = i := hunique 2 ⟨.int, "1", ⟨1, 7⟩⟩ rfl rfl
  exact ⟨hscan, hfault, rfl, hsame, hcompletable⟩

end Reckoner
