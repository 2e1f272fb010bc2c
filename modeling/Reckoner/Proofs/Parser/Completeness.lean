import Reckoner.Proofs.Reading

/-!
# What is read can be parsed

Tokens that read as a phrase are parsed as that phrase in front of any tokens that do not go on with
it. For a chain of operators the statement is stronger: the parser stands in the middle of the chain
with everything so far on its left, so that one more operator and operand can follow.

* `Follows` — the tokens do not go on with a phrase;
* `Accepted` — what parsing a part of the grammar comes to;
* `accepted_of_reads` — all readings are parsed;
* `program_of_reads` — and with them whole programs.
-/

namespace Reckoner

/-! ## What may stand behind a phrase -/

/-- No operator up to the rank comes next, and no equals sign. -/
def Follows (rank : Nat) (rest : List Token) : Prop :=
  (∀ t ∈ rest.head?, t.kind ≠ .assign) ∧ Closed rank rest

theorem Follows.mono {rank rank' : Nat} {rest : List Token} (h : Follows rank rest)
    (hle : rank' ≤ rank) : Follows rank' rest :=
  ⟨h.1, h.2.mono hle⟩

theorem Follows.nil (rank : Nat) : Follows rank [] :=
  ⟨by simp, by simp [Closed]⟩

theorem Token.Ends.follows {t : Token} {ts : List Token} {rank : Nat} (h : t.Ends) :
    Follows rank (t :: ts) :=
  ⟨Parser.forall_mem_head?_cons h.1, h.closed⟩

theorem Joins.kind_ne_assign {level : Level} {op : Token} (h : Joins level op) :
    op.kind ≠ .assign := by
  cases h with
  | logic h =>
      rcases h with h | h <;> simp [(Parser.isKeyword_iff.1 h).1]
  | comparison h | sum h | product h =>
      intro hassign
      simp [hassign] at h
  | power h => simp [h]

theorem Follows.of_joins {level : Level} {op : Token} {ts : List Token} (hop : Joins level op) :
    Follows level.first.rank (op :: ts) :=
  ⟨Parser.forall_mem_head?_cons hop.kind_ne_assign, Closed.of_joins hop⟩

/-- Arms begin with a word that ends the statement before them. -/
theorem Reads.arms_head_ends {limit d : Nat} {s : Symbol} {tree : s.Tree} {ts : List Token}
    (h : Reads limit d s tree ts) (hs : s = .chooseArms ∨ s = .selectArms) :
    ∃ t us, ts = t :: us ∧ t.Ends := by
  cases h with
  | endif ht | otherwise ht | elif ht | endswitch ht | default ht | case ht =>
      exact ⟨_, _, rfl, Token.ends_of_isKeyword ht (by decide) (by decide)⟩
  | _ => simp at hs

theorem Reads.arms_follows {limit d rank : Nat} {s : Symbol} {tree : s.Tree} {ts rest : List Token}
    (h : Reads limit d s tree ts) (hs : s = .chooseArms ∨ s = .selectArms) :
    Follows rank (ts ++ rest) := by
  rcases h.arms_head_ends hs with ⟨t, us, rfl, ht⟩
  exact ht.follows

/-- A statement ends where the next one begins. -/
theorem Reads.statements_follows {limit d rank : Nat} {es : List Expr} {ts rest : List Token}
    (h : Reads limit d .statements es ts) (hsign : ∀ t ∈ ts.head?, t.isSign = false)
    (hrest : Follows rank rest) : Follows rank (ts ++ rest) := by
  cases h with
  | nil => exact hrest
  | cons _ hfirst _ =>
      rcases hfirst.exists_head _ rfl with ⟨t, us, rfl, ht⟩
      exact (ht.ends (hsign t (by simp))).follows

/-! ## How an expression begins -/

/-- Behind the name that an expression begins with stands no equals sign. -/
theorem Reads.second_kind_ne_assign {limit d : Nat} {s : Symbol} {tree : s.Tree} {ts : List Token}
    (h : Reads limit d s tree ts) :
    ∀ p, s = .phrase p → p ≠ .statement → ∀ rest : List Token,
      (∀ t ∈ rest.head?, t.kind ≠ .assign) → ∀ t u us, ts ++ rest = t :: u :: us →
        t.kind = .identifier → u.kind ≠ .assign := by
  -- A phrase whose first token is no name has nothing to show.
  have hother : ∀ {head : Token} {tail : List Token}, head.kind ≠ .identifier →
      ∀ t u us, head :: tail = t :: u :: us → t.kind = .identifier → u.kind ≠ .assign := by
    intro head tail hhead t u us heq hname
    rw [(List.cons.inj heq).1] at hhead
    exact absurd hname hhead
  have hkeyword : ∀ {head : Token} {word : String}, head.isKeyword word →
      head.kind ≠ .identifier := by
    intro head word hword
    simp [(Parser.isKeyword_iff.1 hword).1]
  induction h with
  | declare | assign | expression =>
      rintro _ ⟨rfl⟩ hp
      exact absurd rfl hp
  | @first _ level _ _ _ ih =>
      rintro _ ⟨rfl⟩ _
      exact ih level.first rfl (by cases level <;> simp [Level.first])
  | joined _ hop _ _ ihleft _ =>
      rintro _ ⟨rfl⟩ hp rest _
      rw [List.append_assoc]
      exact ihleft _ rfl hp _ (by simpa using hop.kind_ne_assign)
  | raised hop _ _ ihleft _ =>
      rintro _ ⟨rfl⟩ _ rest _
      rw [List.append_assoc]
      exact ihleft .atom rfl (by simp) _ (by simp [hop])
  | negated _ hop _ _ =>
      rintro _ ⟨rfl⟩ _ rest _
      exact hother (hkeyword hop)
  | compared _ ih =>
      rintro _ ⟨rfl⟩ _
      exact ih (.chain .comparison) rfl (by simp)
  | signed _ hop _ _ =>
      rintro _ ⟨rfl⟩ _ rest _
      refine hother ?_
      rcases Token.isSign_iff.1 hop with hop | hop <;> simp [hop]
  | unsigned _ ih =>
      rintro _ ⟨rfl⟩ _
      exact ih (.chain .power) rfl (by simp)
  | number ht _ =>
      rintro _ ⟨rfl⟩ _ rest _
      refine hother ?_
      rcases ht with ht | ht <;> simp [ht]
  | named _ =>
      rintro _ ⟨rfl⟩ _ rest hrest t u us heq _
      have htail : rest = u :: us := (List.cons.inj heq).2
      exact hrest u (by simp [htail])
  | grouped _ ih =>
      rintro _ ⟨rfl⟩ _
      exact ih .group rfl (by simp)
  | choose ht | select ht | loop ht =>
      rintro _ ⟨rfl⟩ _ rest _
      exact hother (hkeyword ht)
  | group hopening _ _ _ =>
      rintro _ ⟨rfl⟩ _ rest _
      exact hother (by simp [hopening])
  | _ =>
      intro p hp
      cases hp

theorem Reads.beginsExpression {limit d : Nat} {p : Phrase} {e : Expr} {ts rest : List Token}
    (h : Reads limit d (.phrase p) e ts) (hp : p ≠ .statement)
    (hrest : ∀ t ∈ rest.head?, t.kind ≠ .assign) : Parser.BeginsExpression (ts ++ rest) := by
  refine ⟨?_, ?_⟩
  · rcases h.exists_head p rfl with ⟨t, us, rfl, ht⟩
    exact Parser.forall_mem_head?_cons ⟨ht.isKeyword_eq_false (by decide) fun _ => by decide,
      ht.isKeyword_eq_false (by decide) fun heq => absurd heq hp⟩
  · intro t u us heq hboth
    exact h.second_kind_ne_assign p rfl hp rest hrest t u us heq hboth.1 hboth.2

/-! ## Parsing what was read -/

namespace Parser

variable {r : Rules} {d : Nat}

/-- What parsing the tokens of a part of the grammar comes to. -/
def Accepted (r : Rules) (d : Nat) : (s : Symbol) → s.Tree → List Token → Prop
  | .phrase (.chain level), e, ts =>
    -- In the middle of a chain: all of it so far is on the left.
    ∀ rest, Follows level.later.rank rest →
      ∃ h, climb r d level (ts ++ rest) = @chain r d level (ts ++ rest) e rest h
  | .phrase p, e, ts => ∀ rest, Follows p.rank rest → Yields (parsePhrase r d p (ts ++ rest)) e rest
  | .conditional, v, ts =>
    ∀ rest, Follows Phrase.statement.rank rest → Yields (conditional r d (ts ++ rest)) v rest
  | .chooseArms, arms, ts =>
    ∀ before all rest h, all = ts ++ rest → Yields (@chooseArms r d before all h) arms rest
  | .selectArms, arms, ts =>
    ∀ before all rest h, all = ts ++ rest → Yields (@selectArms r d before all h) arms rest
  | .statements, es, ts =>
    -- Statements are read in the bodies of loops and as whole programs.
    (∀ before all closing rest h, closing.isKeyword "endwhile" → all = ts ++ closing :: rest →
      Yields (@loopBody r d before all h) es rest) ∧
    (d = 0 → program r ts = .ok es)

theorem Accepted.yields {p : Phrase} {e : Expr} {ts rest : List Token}
    (h : Accepted r d (.phrase p) e ts) (hrest : Follows p.rank rest) :
    Yields (parsePhrase r d p (ts ++ rest)) e rest := by
  -- Where the tokens behind do not go on with a chain, it stops there.
  cases p with
  | chain level =>
      rcases h rest (hrest.mono level.later_rank_le) with ⟨hshorter, heq⟩
      have hstop : ∀ t ∈ rest.head?, level.accepts t = false := by
        intro t ht
        exact hrest.2 t ht level (Nat.le_refl _)
      rw [parsePhrase, heq, chain_stop hshorter hstop]
      exact yields_ok.2 ⟨rfl, rfl⟩
  | _ => exact h rest hrest

/-! ## One part of the grammar after another -/

theorem accepted_expression {e : Expr} {ts : List Token} (hfits : Fits r.limit d)
    (h : Reads r.limit (d + 1) (.phrase (.chain .logic)) e ts)
    (ih : Accepted r (d + 1) (.phrase (.chain .logic)) e ts) :
    Accepted r d (.phrase .statement) e ts := by
  intro rest hrest
  rw [parsePhrase, statement_expression hfits (h.beginsExpression (by simp) hrest.1)]
  exact ih.yields hrest

theorem accepted_first {level : Level} {e : Expr} {ts : List Token}
    (ih : Accepted r d (.phrase level.first) e ts) :
    Accepted r d (.phrase (.chain level)) e ts := by
  intro rest hrest
  exact climb_eq (ih.yields (hrest.mono level.first_rank_le_later))

theorem accepted_joined {level : Level} {op : Token} {left right : Expr} {ts us : List Token}
    (hlevel : level ≠ .power) (hop : Joins level op)
    (ihleft : Accepted r d (.phrase (.chain level)) left ts)
    (ihright : Accepted r d (.phrase level.first) right us) :
    Accepted r d (.phrase (.chain level)) (.binary op.operator left right) (ts ++ op :: us) := by
  intro rest hrest
  rw [Level.later_eq_first hlevel] at hrest
  have hfollows : Follows level.later.rank (op :: (us ++ rest)) := by
    rw [Level.later_eq_first hlevel]
    exact .of_joins hop
  -- The left part stops in front of the operator, and the chain goes on with it.
  rcases ihleft _ hfollows with ⟨hshorter, hclimb⟩
  have hright : Yields (parsePhrase r d level.later (us ++ rest)) right rest := by
    rw [Level.later_eq_first hlevel]
    exact ihright.yields hrest
  rcases chain_go left hshorter (joins_iff.1 hop) hright with ⟨hrestShorter, hchain⟩
  rw [List.append_assoc]
  exact ⟨hrestShorter, hclimb.trans hchain⟩

theorem accepted_raised {op : Token} {left right : Expr} {ts us : List Token}
    (hop : op.kind = .pow) (ihleft : Accepted r d (.phrase .atom) left ts)
    (ihright : Accepted r d (.phrase .factor) right us) :
    Accepted r d (.phrase (.chain .power)) (.binary op.operator left right) (ts ++ op :: us) := by
  intro rest hrest
  have hjoins : Joins .power op := .power hop
  have hbase : Yields (parsePhrase r d Level.power.first (ts ++ op :: (us ++ rest))) left
      (op :: (us ++ rest)) := ihleft.yields (.of_joins hjoins)
  -- The base is an atom, so that the chain has just begun.
  rcases climb_eq hbase with ⟨hshorter, hclimb⟩
  have hright : Yields (parsePhrase r d Level.power.later (us ++ rest)) right rest :=
    ihright.yields hrest
  rcases chain_go left hshorter (joins_iff.1 hjoins) hright with ⟨hrestShorter, hchain⟩
  rw [List.append_assoc]
  exact ⟨hrestShorter, hclimb.trans hchain⟩

theorem accepted_compared {e : Expr} {ts : List Token}
    (h : Reads r.limit d (.phrase (.chain .comparison)) e ts)
    (ih : Accepted r d (.phrase (.chain .comparison)) e ts) :
    Accepted r d (.phrase .negation) e ts := by
  intro rest hrest
  rcases h.exists_head _ rfl with ⟨t, us, rfl, ht⟩
  have hnot : ∀ u ∈ ((t :: us) ++ rest).head?, u.isKeyword "not" = false :=
    forall_mem_head?_cons (Token.isKeyword_eq_false_of_operand ht (by decide))
  rw [parsePhrase, comparison_plain hnot]
  exact ih.yields hrest

theorem accepted_unsigned {e : Expr} {ts : List Token}
    (h : Reads r.limit d (.phrase (.chain .power)) e ts)
    (ih : Accepted r d (.phrase (.chain .power)) e ts) : Accepted r d (.phrase .factor) e ts := by
  intro rest hrest
  rcases h.exists_head _ rfl with ⟨t, us, rfl, ht⟩
  have hsign : ∀ u ∈ ((t :: us) ++ rest).head?, u.isSign = false :=
    forall_mem_head?_cons (Token.OpensAtom.isSign_eq_false ht)
  rw [parsePhrase, factor_unsigned hsign]
  exact ih.yields hrest

theorem accepted_group {opening closing : Token} {e : Expr} {ts : List Token}
    (hopening : opening.kind = .openParen) (hclosing : closing.kind = .closeParen)
    (ih : Accepted r d (.phrase .statement) e ts) :
    Accepted r d (.phrase .group) e (opening :: ts ++ [closing]) := by
  intro rest _
  have hends : closing.Ends := Token.ends_of_kind (by simp [hclosing])
  refine parens_yields_iff.2
    ⟨opening, closing, ts ++ closing :: rest, by simp, hopening, hclosing, ?_⟩
  exact ih.yields hends.follows

theorem accepted_conditional {opening : Token} {condition body : Expr} {ts us : List Token}
    (hopening : opening.isKeyword "then") (ihcondition : Accepted r d (.phrase .group) condition ts)
    (ihbody : Accepted r d (.phrase .statement) body us) :
    Accepted r d .conditional (condition, body) (ts ++ opening :: us) := by
  intro rest hrest
  have hends : opening.Ends := Token.ends_of_isKeyword hopening (by decide) (by decide)
  rw [List.append_assoc]
  exact conditional_yields_iff.2
    ⟨opening, us ++ rest, hopening, ihcondition.yields hends.follows, ihbody.yields hrest⟩

theorem accepted_statements {e : Expr} {es : List Expr} {ts us : List Token}
    (hsign : ∀ t ∈ us.head?, t.isSign = false) (hfirst : Reads r.limit d (.phrase .statement) e ts)
    (hothers : Reads r.limit d .statements es us) (ihfirst : Accepted r d (.phrase .statement) e ts)
    (ihothers : Accepted r d .statements es us) :
    Accepted r d .statements (e :: es) (ts ++ us) := by
  rcases hfirst.exists_head _ rfl with ⟨t, more, rfl, ht⟩
  -- In a loop the closing word comes behind the statements, in a program nothing does.
  refine ⟨?_, ?_⟩
  · intro before all closing rest hshorter hclosing hall
    have hends : closing.Ends := Token.ends_of_isKeyword hclosing (by decide) (by decide)
    have hfollows : Follows Phrase.statement.rank (us ++ closing :: rest) :=
      hothers.statements_follows hsign hends.follows
    have hwhile : t.isKeyword "endwhile" = false :=
      ht.isKeyword_eq_false (by decide) fun _ => by decide
    rw [List.append_assoc] at hall
    subst hall
    have hless : (us ++ closing :: rest).length < before.length := by
      simp only [List.length_append, List.length_cons] at hshorter ⊢
      omega
    exact (loopBody_more hwhile ht.kind_ne_eof).2 ⟨e, es, us ++ closing :: rest, hless, rfl,
      ihfirst.yields hfollows, ihothers.1 _ _ closing rest _ hclosing rfl⟩
  · intro hd
    subst hd
    have hfollows : Follows Phrase.statement.rank (us ++ []) :=
      hothers.statements_follows hsign (.nil _)
    rw [List.append_nil] at hfollows
    exact (program_cons ht.kind_ne_eof).2
      ⟨e, es, us, rfl, ihfirst.yields hfollows, ihothers.2 rfl⟩

/-! ## All readings -/

theorem accepted_of_reads {s : Symbol} {tree : s.Tree} {ts : List Token}
    (h : Reads r.limit d s tree ts) : Accepted r d s tree ts := by
  -- Phrases that are entered by their first token are done in place, the others by the lemmas
  -- above.
  induction h with
  | declare hfits hv hname hequals _ ih =>
      intro rest hrest
      exact (statement_declare hfits hv).2
        ⟨_, _, _, _, rfl, hname, hequals, rfl, ih.yields hrest⟩
  | assign hfits hname hequals _ ih =>
      intro rest hrest
      exact (statement_assign hfits hname hequals).2 ⟨_, rfl, ih.yields hrest⟩
  | expression hfits h ih => exact accepted_expression hfits h ih
  | first _ ih => exact accepted_first ih
  | joined hlevel hop _ _ ihleft ihright => exact accepted_joined hlevel hop ihleft ihright
  | raised hop _ _ ihleft ihright => exact accepted_raised hop ihleft ihright
  | negated hfits hop _ ih =>
      intro rest hrest
      exact (comparison_not hop).2 ⟨hfits, _, rfl, ih.yields hrest⟩
  | compared h ih => exact accepted_compared h ih
  | signed hfits hop _ ih =>
      intro rest hrest
      exact (factor_signed hop).2 ⟨hfits, _, rfl, ih.yields hrest⟩
  | unsigned h ih => exact accepted_unsigned h ih
  | number ht hn =>
      intro rest _
      exact (atom_number ht).2 ⟨rfl, _, hn, rfl⟩
  | named ht =>
      intro rest _
      exact (atom_variable ht).2 ⟨rfl, rfl⟩
  | grouped h ih =>
      intro rest hrest
      cases h with
      | group hopening hclosing _ =>
          rw [parsePhrase, List.cons_append, List.cons_append, atom_group hopening]
          exact ih.yields hrest
  | @choose _ t _ _ _ ts us ht _ harms ihfirst ihothers =>
      intro rest _
      have hfirst := ihfirst (us ++ rest) (harms.arms_follows (.inl rfl))
      rw [show t :: ts ++ us ++ rest = t :: (ts ++ (us ++ rest)) by simp]
      exact (atom_choose ht).2
        ⟨_, _, _, _, hfirst.shorter, rfl, hfirst, ihothers _ _ rest _ rfl⟩
  | @select _ t _ _ ts us ht _ harms ihsubject ihothers =>
      intro rest _
      have hfollows : Follows Phrase.statement.rank (us ++ rest) := harms.arms_follows (.inr rfl)
      have hsubject := ihsubject.yields hfollows
      rw [show t :: ts ++ us ++ rest = t :: (ts ++ (us ++ rest)) by simp]
      exact (atom_select ht).2
        ⟨_, _, _, hsubject.shorter, rfl, hsubject, ihothers _ _ rest _ rfl⟩
  | @loop _ t opening closing _ _ ts us ht hopening hclosing _ _ ihcondition ihbody =>
      intro rest _
      have hends : opening.Ends := Token.ends_of_isKeyword hopening (by decide) (by decide)
      rw [show t :: ts ++ opening :: us ++ [closing] ++ rest =
        t :: (ts ++ opening :: (us ++ closing :: rest)) by simp]
      exact (atom_loop ht).2 ⟨_, _, opening, us ++ closing :: rest, by simp, rfl, hopening,
        ihcondition.yields hends.follows, ihbody.1 _ _ closing rest _ hclosing rfl⟩
  | group hopening hclosing _ ih => exact accepted_group hopening hclosing ih
  | conditional hopening _ _ ihcondition ihbody =>
      exact accepted_conditional hopening ihcondition ihbody
  | @endif _ t ht =>
      rintro before _ rest hshorter rfl
      have hother : ∀ u ∈ ([t] ++ rest).head?,
          u.isKeyword "elif" = false ∧ u.isKeyword "else" = false :=
        forall_mem_head?_cons ⟨isKeyword_eq_false_of_isKeyword ht (by decide),
          isKeyword_eq_false_of_isKeyword ht (by decide)⟩
      exact (chooseArms_end hother).2 ⟨t, rfl, ht, rfl⟩
  | @otherwise _ t closing _ ts ht hclosing _ ih =>
      intro before all rest hshorter hall
      have hends : closing.Ends := Token.ends_of_isKeyword hclosing (by decide) (by decide)
      rw [show t :: ts ++ [closing] ++ rest = t :: (ts ++ closing :: rest) by simp] at hall
      subst hall
      exact (chooseArms_else ht).2 ⟨_, closing, rfl, hclosing, ih.yields hends.follows⟩
  | @elif _ t _ _ _ ts us ht _ harms ihfirst ihothers =>
      intro before all rest hshorter hall
      have hfirst := ihfirst (us ++ rest) (harms.arms_follows (.inl rfl))
      rw [show t :: ts ++ us ++ rest = t :: (ts ++ (us ++ rest)) by simp] at hall
      subst hall
      exact (chooseArms_elif ht).2 ⟨_, _, _, _, by
        have := hfirst.shorter
        simp only [List.length_cons] at hshorter
        omega, rfl, hfirst, ihothers _ _ rest _ rfl⟩
  | @endswitch _ t ht =>
      rintro before _ rest hshorter rfl
      have hother : ∀ u ∈ ([t] ++ rest).head?,
          u.isKeyword "case" = false ∧ u.isKeyword "default" = false :=
        forall_mem_head?_cons ⟨isKeyword_eq_false_of_isKeyword ht (by decide),
          isKeyword_eq_false_of_isKeyword ht (by decide)⟩
      exact (selectArms_end hother).2 ⟨t, rfl, ht, rfl⟩
  | @default _ t colon closing _ ts ht hcolon hclosing _ ih =>
      intro before all rest hshorter hall
      have hends : closing.Ends := Token.ends_of_isKeyword hclosing (by decide) (by decide)
      rw [show t :: colon :: ts ++ [closing] ++ rest = t :: colon :: (ts ++ closing :: rest)
        by simp] at hall
      subst hall
      exact (selectArms_default ht).2
        ⟨colon, _, _, closing, rfl, rfl, hcolon, hclosing, ih.yields hends.follows⟩
  | @case _ t colon _ _ _ ts us vs ht hcolon _ _ harms ihguard ihbody ihothers =>
      intro before all rest hshorter hall
      have hends : colon.Ends := Token.ends_of_kind (by simp [hcolon])
      have hfollows : Follows Phrase.statement.rank (vs ++ rest) := harms.arms_follows (.inr rfl)
      have hbody := ihbody.yields hfollows
      rw [show t :: ts ++ colon :: us ++ vs ++ rest = t :: (ts ++ colon :: (us ++ (vs ++ rest)))
        by simp] at hall
      subst hall
      exact (selectArms_case ht).2 ⟨_, colon, _, _, _, _, by
        have := hbody.shorter
        simp only [List.length_cons, List.length_append] at hshorter this ⊢
        omega, rfl, hcolon, ihguard.yields hends.follows, hbody, ihothers _ _ rest _ rfl⟩
  | nil =>
      refine ⟨?_, fun _ => program_nil⟩
      rintro before _ closing rest hshorter hclosing rfl
      have hend : ∀ t ∈ ([] ++ closing :: rest).head?, t.isKeyword "endwhile" ∨ t.kind = .eof :=
        forall_mem_head?_cons (.inl hclosing)
      exact (loopBody_end hend).2 ⟨closing, rfl, hclosing, rfl⟩
  | cons hsign hfirst hothers ihfirst ihothers =>
      exact accepted_statements hsign hfirst hothers ihfirst ihothers

/-- A program whose tokens read as statements is parsed as those. -/
theorem program_of_reads {es : Program} {ts : List Token} (h : Reads r.limit 0 .statements es ts) :
    program r ts = .ok es :=
  (accepted_of_reads h).2 rfl

end Parser
end Reckoner
