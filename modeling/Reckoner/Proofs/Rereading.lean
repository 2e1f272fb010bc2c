import Reckoner.Proofs.Printing

/-!
# Printed trees are read again

The tokens of a printed tree read as the tree, in whatever places they stand. Every printed
expression is an atom, so nothing that is printed beside it can become a part of it.

* `Spells` — tokens that are the lexemes among some pieces;
* `Rereads` — whatever tokens spell the pieces, they read as the tree up to places;
* `rereads_assign`, `rereads_loop` and their companions — the tokens of each construct;
* `Prints.reads` — the tokens of a printed tree read as the tree.
-/

namespace Reckoner

/-- The tokens are the lexemes among the pieces, in whatever places. -/
def Spells : List Segment → List Token → Prop
  | [], ts => ts = []
  | .lexeme _ kind literal :: segments, ts =>
    ∃ p us, ts = ⟨kind, literal, p⟩ :: us ∧ Spells segments us
  | _ :: segments, ts => Spells segments ts

@[simp] theorem spells_nil {ts : List Token} : Spells [] ts ↔ ts = [] :=
  Iff.rfl

@[simp] theorem spells_mark {kind : Kind} {literal : String} {segments : List Segment}
    {ts : List Token} :
    Spells (.mark kind literal :: segments) ts ↔
      ∃ p us, ts = ⟨kind, literal, p⟩ :: us ∧ Spells segments us :=
  Iff.rfl

@[simp] theorem spells_gap {segments : List Segment} {ts : List Token} :
    Spells (.gap :: segments) ts ↔ Spells segments ts :=
  Iff.rfl

theorem spells_append {segments others : List Segment} {ts : List Token} :
    Spells (segments ++ others) ts ↔ ∃ us vs, ts = us ++ vs ∧ Spells segments us ∧
      Spells others vs := by
  induction segments generalizing ts with
  | nil => simp
  | cons segment segments ih =>
      cases segment with
      | blank c => exact ih
      | unclosed body => exact ih
      | lexeme text kind literal =>
          constructor
          · rintro ⟨p, rest, rfl, hrest⟩
            rcases ih.1 hrest with ⟨us, vs, rfl, hus, hvs⟩
            exact ⟨_ :: us, vs, rfl, ⟨p, us, rfl, hus⟩, hvs⟩
          · rintro ⟨_, vs, rfl, ⟨p, us, rfl, hus⟩, hvs⟩
            exact ⟨p, us ++ vs, rfl, ih.2 ⟨us, vs, rfl, hus, hvs⟩⟩

theorem spells_inParens {segments : List Segment} {ts : List Token} :
    Spells (Segment.inParens segments) ts ↔ ∃ o us c,
      ts = ⟨.openParen, "(", o⟩ :: (us ++ [⟨.closeParen, ")", c⟩]) ∧ Spells segments us := by
  simp only [Segment.inParens, List.cons_append, spells_mark, spells_append, spells_nil]
  constructor
  · rintro ⟨o, _, rfl, us, _, rfl, hus, c, _, rfl, rfl⟩
    exact ⟨o, us, c, rfl, hus⟩
  · rintro ⟨o, us, c, rfl, hus⟩
    exact ⟨o, _, rfl, us, _, rfl, hus, c, _, rfl, rfl⟩

theorem spells_tokensFrom (p : Position) (segments : List Segment) :
    Spells segments (Segment.tokensFrom p segments) := by
  induction segments generalizing p with
  | nil => rfl
  | cons segment segments ih =>
      cases segment with
      | blank c => exact ih _
      | unclosed body => exact ih _
      | lexeme text kind literal => exact ⟨_, _, rfl, ih _⟩

/-- A chain of any level is a statement. -/
theorem Reads.statement_of_chain {d : Nat} {level : Level} {e : Expr} {ts : List Token}
    (h : Reads 0 d (.phrase (.chain level)) e ts) : Reads 0 d (.phrase .statement) e ts := by
  have h' := h.any_depth (d + 1)
  refine .expression (fits_zero d) ?_
  cases level with
  | logic => exact h'
  | comparison => exact .first (.compared h')
  | sum => exact .first (.compared (.first h'))
  | product => exact .first (.compared (.first (.first h')))
  | power => exact .first (.compared (.first (.first (.first (.unsigned h')))))

theorem Reads.first_of_atom {d : Nat} {e : Expr} {ts : List Token} (level : Level)
    (h : Reads 0 d (.phrase .atom) e ts) : Reads 0 d (.phrase level.first) e ts := by
  have hpower : Reads 0 d (.phrase (.chain .power)) e ts := .first h
  cases level with
  | logic => exact .compared (.first (.first (.first (.unsigned hpower))))
  | comparison => exact .first (.first (.unsigned hpower))
  | sum => exact .first (.unsigned hpower)
  | product => exact .unsigned hpower
  | power => exact h

theorem Reads.statement_of_atom {d : Nat} {e : Expr} {ts : List Token}
    (h : Reads 0 d (.phrase .atom) e ts) : Reads 0 d (.phrase .statement) e ts :=
  (Reads.first (h.first_of_atom .power)).statement_of_chain

/-- Two atoms with an operator between them are a statement. -/
theorem Reads.statement_of_joined {d : Nat} {level : Level} {op : Token} {left right : Expr}
    {ts us : List Token} (hop : Joins level op) (hleft : Reads 0 d (.phrase .atom) left ts)
    (hright : Reads 0 d (.phrase .atom) right us) :
    Reads 0 d (.phrase .statement) (.binary op.operator left right) (ts ++ op :: us) := by
  -- The exponent of a power is a factor, all other operands are of one level.
  by_cases hlevel : level = .power
  · subst hlevel
    cases hop with
    | power hpow =>
        have hfactor : Reads 0 d (.phrase .factor) right us := hright.first_of_atom .product
        exact (Reads.raised hpow hleft hfactor).statement_of_chain
  · have hchain := Reads.joined hlevel hop (.first (hleft.first_of_atom level))
      (hright.first_of_atom level)
    exact hchain.statement_of_chain

/-- A statement in parentheses is an atom. -/
theorem Reads.atom_of_statement {d : Nat} {e : Expr} {ts : List Token} {p q : Position}
    (h : Reads 0 d (.phrase .statement) e ts) :
    Reads 0 d (.phrase .atom) e (⟨.openParen, "(", p⟩ :: (ts ++ [⟨.closeParen, ")", q⟩])) :=
  .grouped (.group rfl rfl h)

/-- What a part of the grammar writes, without its places. -/
def Symbol.unplaced (s : Symbol) (tree : s.Tree) : s.Tree :=
  s.mapPos (fun _ => .nowhere) tree

theorem isKeyword_self (word : String) (p : Position) :
    Token.isKeyword ⟨.keyword, word, p⟩ word := by
  simp [Token.isKeyword, Token.is]

theorem Number.isNumeral_literalKind (n : Number) (p : Position) :
    Token.IsNumeral ⟨n.literalKind, n.text, p⟩ := by
  cases n with
  | int i => exact .inl rfl
  | float x => exact .inr rfl

/-- Whatever tokens spell the pieces, they read as the tree up to places. Those of statements do
not begin with a sign. -/
def Rereads (s : Symbol) (tree : s.Tree) (segments : List Segment) : Prop :=
  ∀ ts, Spells segments ts → ∃ tree', Reads 0 0 s tree' ts ∧ s.unplaced tree' = s.unplaced tree ∧
    (s = .statements → ∀ t ∈ ts.head?, t.isSign = false)

/-! The tokens of each construct are taken apart into those of its parts, and the readings of the
parts are put together under the places that the tokens have. -/

section Readings

variable {name : String} {op : Operator} {pos : Position}
  {e left right condition body : Expr} {arms : Arms} {statements : List Expr}
  {es fs ss : List Segment}

theorem rereads_number {n : Number} (h : n.Prints) :
    Rereads (.phrase .atom) (.num n pos) [.mark n.literalKind n.text] := by
  rintro ts ⟨p, us, rfl, rfl⟩
  exact ⟨_, .number (n.isNumeral_literalKind p) (h.2 p), rfl, by simp⟩

theorem rereads_named : Rereads (.phrase .atom) (.var name pos) [.mark .identifier name] := by
  rintro ts ⟨p, us, rfl, rfl⟩
  exact ⟨_, .named rfl, rfl, by simp⟩

/-- A printed statement in parentheses is a printed atom. -/
theorem rereads_inParens (h : Rereads (.phrase .statement) e es) :
    Rereads (.phrase .atom) e (Segment.inParens es) := by
  intro ts hts
  obtain ⟨o, us, c, rfl, hus⟩ := spells_inParens.1 hts
  obtain ⟨e', he, hsame, -⟩ := h us hus
  exact ⟨e', he.atom_of_statement, hsame, by simp⟩

theorem rereads_assign (h : Rereads (.phrase .atom) e es) :
    Rereads (.phrase .statement) (.assign name pos e)
      (.mark .identifier name :: .gap :: .mark .assign "=" :: .gap :: es) := by
  intro ts hts
  simp only [spells_mark, spells_gap] at hts
  obtain ⟨p, _, rfl, q, us, rfl, hus⟩ := hts
  obtain ⟨e', he, hsame, -⟩ := h us hus
  -- The value is read one level deeper, which without a limit makes no difference.
  have hassign := @Reads.assign 0 0 ⟨.identifier, name, p⟩ ⟨.assign, "=", q⟩ _ _ (fits_zero 0) rfl
    rfl (he.statement_of_atom.any_depth 1)
  refine ⟨_, hassign, ?_, by simp⟩
  simpa [Symbol.unplaced, Symbol.mapPos, Expr.mapPos] using hsame

theorem rereads_joined {level : Level} (hjoins : ∀ p, Joins level ⟨op.kind, op.literal, p⟩)
    (hleft : Rereads (.phrase .atom) left fs) (hright : Rereads (.phrase .atom) right ss) :
    Rereads (.phrase .statement) (.binary op left right)
      (fs ++ .gap :: .mark op.kind op.literal :: .gap :: ss) := by
  intro ts hts
  simp only [spells_mark, spells_gap, spells_append] at hts
  obtain ⟨ls, _, rfl, hls, p, rs, rfl, hrs⟩ := hts
  obtain ⟨left', hleft', hsameLeft, -⟩ := hleft ls hls
  obtain ⟨right', hright', hsameRight, -⟩ := hright rs hrs
  refine ⟨_, Reads.statement_of_joined (hjoins p) hleft' hright', ?_, by simp⟩
  simp only [Symbol.unplaced, Symbol.mapPos] at hsameLeft hsameRight
  simp [Symbol.unplaced, Symbol.mapPos, Expr.mapPos, hsameLeft, hsameRight, Token.operator]

/-- A signed atom is a factor, and with it a chain of all looser levels. -/
theorem rereads_signed (hop : op ∈ [⟨.plus, "+"⟩, ⟨.minus, "-"⟩])
    (h : Rereads (.phrase .atom) e es) :
    Rereads (.phrase .statement) (.unary op e) (.mark op.kind op.literal :: es) := by
  intro ts hts
  obtain ⟨p, us, rfl, hus⟩ := spells_mark.1 hts
  obtain ⟨e', he, hsame, -⟩ := h us hus
  have hsign : Token.isSign ⟨op.kind, op.literal, p⟩ := by
    simp only [List.mem_cons, List.not_mem_nil, or_false] at hop
    rcases hop with rfl | rfl <;> rfl
  have hfactor : Reads 0 1 (.phrase .factor) e' us := (he.first_of_atom .product).any_depth 1
  have hproduct : Reads 0 0 (.phrase (.chain .product)) _ _ :=
    .first (.signed (fits_zero 0) hsign hfactor)
  refine ⟨_, hproduct.statement_of_chain, ?_, by simp⟩
  simpa [Symbol.unplaced, Symbol.mapPos, Expr.mapPos, Token.operator] using hsame

theorem rereads_negated (h : Rereads (.phrase .atom) e es) :
    Rereads (.phrase .statement) (.unary ⟨.keyword, "not"⟩ e)
      (.mark .keyword "not" :: .gap :: es) := by
  intro ts hts
  simp only [spells_mark, spells_gap] at hts
  obtain ⟨p, us, rfl, hus⟩ := hts
  obtain ⟨e', he, hsame, -⟩ := h us hus
  have hnot : Token.isKeyword ⟨.keyword, "not", p⟩ "not" := isKeyword_self _ _
  have hnegation : Reads 0 1 (.phrase .negation) e' us := (he.first_of_atom .logic).any_depth 1
  have hlogic : Reads 0 0 (.phrase (.chain .logic)) _ _ :=
    .first (.negated (fits_zero 0) hnot hnegation)
  refine ⟨_, hlogic.statement_of_chain, ?_, by simp⟩
  simpa [Symbol.unplaced, Symbol.mapPos, Expr.mapPos, Token.operator] using hsame

theorem rereads_choose (hfirst : Rereads .conditional (condition, body) fs)
    (hothers : Rereads .chooseArms arms ss) :
    Rereads (.phrase .atom) (.choose pos (.arm condition body arms))
      (.mark .keyword "if" :: .gap :: (fs ++ ss)) := by
  intro ts hts
  simp only [spells_mark, spells_gap, spells_append] at hts
  obtain ⟨p, _, rfl, us, vs, rfl, hus, hvs⟩ := hts
  obtain ⟨⟨condition', body'⟩, hfirst', hsameFirst, -⟩ := hfirst us hus
  obtain ⟨arms', hothers', hsameArms, -⟩ := hothers vs hvs
  have hif : Token.isKeyword ⟨.keyword, "if", p⟩ "if" := isKeyword_self _ _
  refine ⟨_, .choose hif hfirst' hothers', ?_, by simp⟩
  simp only [Symbol.unplaced, Symbol.mapPos, Prod.mk.injEq] at hsameFirst hsameArms
  simp [Symbol.unplaced, Symbol.mapPos, Expr.mapPos, Arms.mapPos, hsameFirst, hsameArms]

theorem rereads_select (hsubject : Rereads (.phrase .atom) e fs)
    (hothers : Rereads .selectArms arms ss) :
    Rereads (.phrase .atom) (.select pos e arms)
      (.mark .keyword "switch" :: .gap :: (fs ++ ss)) := by
  intro ts hts
  simp only [spells_mark, spells_gap, spells_append] at hts
  obtain ⟨p, _, rfl, us, vs, rfl, hus, hvs⟩ := hts
  obtain ⟨e', he, hsame, -⟩ := hsubject us hus
  obtain ⟨arms', hothers', hsameArms, -⟩ := hothers vs hvs
  have hswitch : Token.isKeyword ⟨.keyword, "switch", p⟩ "switch" := isKeyword_self _ _
  refine ⟨_, .select hswitch he.statement_of_atom hothers', ?_, by simp⟩
  simp only [Symbol.unplaced, Symbol.mapPos] at hsame hsameArms
  simp [Symbol.unplaced, Symbol.mapPos, Expr.mapPos, hsame, hsameArms]

theorem rereads_loop (hcondition : Rereads (.phrase .atom) condition fs)
    (hbody : Rereads .statements statements ss) :
    Rereads (.phrase .atom) (.loop pos condition statements)
      (.mark .keyword "while" :: .gap :: (Segment.inParens fs ++
        .gap :: .mark .keyword "then" :: (ss ++ [.gap, .mark .keyword "endwhile"]))) := by
  intro ts hts
  simp only [spells_mark, spells_gap, spells_append, spells_inParens, spells_nil] at hts
  obtain ⟨p, _, rfl, _, _, rfl, ⟨o, us, c, rfl, hus⟩, q, _, rfl, vs, _, rfl, hvs, l, _, rfl,
    rfl⟩ := hts
  obtain ⟨condition', hcondition', hsameCondition, -⟩ := hcondition us hus
  obtain ⟨body', hbody', hsameBody, -⟩ := hbody vs hvs
  have hwhile : Token.isKeyword ⟨.keyword, "while", p⟩ "while" := isKeyword_self _ _
  have hthen : Token.isKeyword ⟨.keyword, "then", q⟩ "then" := isKeyword_self _ _
  have hend : Token.isKeyword ⟨.keyword, "endwhile", l⟩ "endwhile" := isKeyword_self _ _
  have hgroup := @Reads.group 0 0 ⟨.openParen, "(", o⟩ ⟨.closeParen, ")", c⟩ _ _ rfl rfl
    hcondition'.statement_of_atom
  refine ⟨_, by simpa using Reads.loop hwhile hthen hend hgroup hbody', ?_, by simp⟩
  simp only [Symbol.unplaced, Symbol.mapPos] at hsameCondition hsameBody
  simp [Symbol.unplaced, Symbol.mapPos, Expr.mapPos, hsameCondition, hsameBody]

theorem rereads_conditional (hcondition : Rereads (.phrase .atom) condition fs)
    (hbody : Rereads (.phrase .atom) body ss) :
    Rereads .conditional (condition, body)
      (Segment.inParens fs ++ .gap :: .mark .keyword "then" :: .gap :: ss) := by
  intro ts hts
  simp only [spells_mark, spells_gap, spells_append, spells_inParens] at hts
  obtain ⟨_, _, rfl, ⟨o, us, c, rfl, hus⟩, q, vs, rfl, hvs⟩ := hts
  obtain ⟨condition', hcondition', hsameCondition, -⟩ := hcondition us hus
  obtain ⟨body', hbody', hsameBody, -⟩ := hbody vs hvs
  have hthen : Token.isKeyword ⟨.keyword, "then", q⟩ "then" := isKeyword_self _ _
  have hgroup := @Reads.group 0 0 ⟨.openParen, "(", o⟩ ⟨.closeParen, ")", c⟩ _ _ rfl rfl
    hcondition'.statement_of_atom
  refine ⟨_, by simpa using Reads.conditional hthen hgroup hbody'.statement_of_atom, ?_, by simp⟩
  simp only [Symbol.unplaced, Symbol.mapPos] at hsameCondition hsameBody
  simp [Symbol.unplaced, Symbol.mapPos, hsameCondition, hsameBody]

theorem rereads_endif : Rereads .chooseArms .none [.gap, .mark .keyword "endif"] := by
  rintro ts ⟨p, us, rfl, rfl⟩
  have hend : Token.isKeyword ⟨.keyword, "endif", p⟩ "endif" := isKeyword_self _ _
  exact ⟨_, .endif hend, rfl, by simp⟩

theorem rereads_otherwise (h : Rereads (.phrase .atom) e es) :
    Rereads .chooseArms (.otherwise e)
      (.gap :: .mark .keyword "else" :: .gap :: (es ++ [.gap, .mark .keyword "endif"])) := by
  intro ts hts
  simp only [spells_mark, spells_gap, spells_append, spells_nil] at hts
  obtain ⟨p, _, rfl, us, _, rfl, hus, l, _, rfl, rfl⟩ := hts
  obtain ⟨e', he, hsame, -⟩ := h us hus
  have helse : Token.isKeyword ⟨.keyword, "else", p⟩ "else" := isKeyword_self _ _
  have hend : Token.isKeyword ⟨.keyword, "endif", l⟩ "endif" := isKeyword_self _ _
  refine ⟨_, .otherwise helse hend he.statement_of_atom, ?_, by simp⟩
  simpa [Symbol.unplaced, Symbol.mapPos, Arms.mapPos] using hsame

theorem rereads_elif (hfirst : Rereads .conditional (condition, body) fs)
    (hothers : Rereads .chooseArms arms ss) :
    Rereads .chooseArms (.arm condition body arms)
      (.gap :: .mark .keyword "elif" :: .gap :: (fs ++ ss)) := by
  intro ts hts
  simp only [spells_mark, spells_gap, spells_append] at hts
  obtain ⟨p, _, rfl, us, vs, rfl, hus, hvs⟩ := hts
  obtain ⟨⟨condition', body'⟩, hfirst', hsameFirst, -⟩ := hfirst us hus
  obtain ⟨arms', hothers', hsameArms, -⟩ := hothers vs hvs
  have helif : Token.isKeyword ⟨.keyword, "elif", p⟩ "elif" := isKeyword_self _ _
  refine ⟨_, .elif helif hfirst' hothers', ?_, by simp⟩
  simp only [Symbol.unplaced, Symbol.mapPos, Prod.mk.injEq] at hsameFirst hsameArms
  simp [Symbol.unplaced, Symbol.mapPos, Arms.mapPos, hsameFirst, hsameArms]

theorem rereads_endswitch : Rereads .selectArms .none [.gap, .mark .keyword "endswitch"] := by
  rintro ts ⟨p, us, rfl, rfl⟩
  have hend : Token.isKeyword ⟨.keyword, "endswitch", p⟩ "endswitch" := isKeyword_self _ _
  exact ⟨_, .endswitch hend, rfl, by simp⟩

theorem rereads_default (h : Rereads (.phrase .atom) e es) :
    Rereads .selectArms (.otherwise e)
      (.gap :: .mark .keyword "default" :: .gap :: .mark .colon ":" :: .gap ::
        (es ++ [.gap, .mark .keyword "endswitch"])) := by
  intro ts hts
  simp only [spells_mark, spells_gap, spells_append, spells_nil] at hts
  obtain ⟨p, _, rfl, c, _, rfl, us, _, rfl, hus, l, _, rfl, rfl⟩ := hts
  obtain ⟨e', he, hsame, -⟩ := h us hus
  have hdefault : Token.isKeyword ⟨.keyword, "default", p⟩ "default" := isKeyword_self _ _
  have hend : Token.isKeyword ⟨.keyword, "endswitch", l⟩ "endswitch" := isKeyword_self _ _
  refine ⟨_, .default hdefault rfl hend he.statement_of_atom, ?_, by simp⟩
  simpa [Symbol.unplaced, Symbol.mapPos, Arms.mapPos] using hsame

theorem rereads_case (hguard : Rereads (.phrase .atom) e es)
    (hbody : Rereads (.phrase .atom) body fs) (hothers : Rereads .selectArms arms ss) :
    Rereads .selectArms (.arm e body arms)
      (.gap :: .mark .keyword "case" :: .gap ::
        (es ++ .gap :: .mark .colon ":" :: .gap :: (fs ++ ss))) := by
  intro ts hts
  simp only [spells_mark, spells_gap, spells_append] at hts
  obtain ⟨p, _, rfl, us, _, rfl, hus, c, _, rfl, vs, ws, rfl, hvs, hws⟩ := hts
  obtain ⟨guard', hguard', hsameGuard, -⟩ := hguard us hus
  obtain ⟨body', hbody', hsameBody, -⟩ := hbody vs hvs
  obtain ⟨arms', hothers', hsameArms, -⟩ := hothers ws hws
  have hcase : Token.isKeyword ⟨.keyword, "case", p⟩ "case" := isKeyword_self _ _
  have hcolon : (⟨.colon, ":", c⟩ : Token).kind = .colon := rfl
  have h := Reads.case hcase hcolon hguard'.statement_of_atom hbody'.statement_of_atom hothers'
  refine ⟨_, by simpa using h, ?_, by simp⟩
  simp only [Symbol.unplaced, Symbol.mapPos] at hsameGuard hsameBody hsameArms
  simp [Symbol.unplaced, Symbol.mapPos, Arms.mapPos, hsameGuard, hsameBody, hsameArms]

theorem rereads_nil : Rereads .statements [] [] := by
  rintro ts rfl
  exact ⟨_, .nil, rfl, by simp⟩

/-- A printed statement is an atom, and no atom begins with a sign. -/
theorem rereads_cons (hfirst : Rereads (.phrase .atom) e fs)
    (hothers : Rereads .statements statements ss) :
    Rereads .statements (e :: statements) (.gap :: (fs ++ ss)) := by
  intro ts hts
  simp only [spells_gap, spells_append] at hts
  obtain ⟨us, vs, rfl, hus, hvs⟩ := hts
  obtain ⟨e', he, hsame, -⟩ := hfirst us hus
  obtain ⟨es', hes, hsames, hsign⟩ := hothers vs hvs
  refine ⟨_, .cons (hsign rfl) he.statement_of_atom hes, ?_, fun _ => ?_⟩
  · simp only [Symbol.unplaced, Symbol.mapPos] at hsame hsames
    simp [Symbol.unplaced, Symbol.mapPos, hsame, hsames]
  · obtain ⟨t, ws, rfl, ht⟩ := he.exists_head .atom rfl
    simpa using Token.OpensAtom.isSign_eq_false ht

end Readings

/-- Whatever tokens spell the pieces of a printed tree, they read as the tree up to places. -/
theorem Prints.reads {s : Symbol} {tree : s.Tree} {segments : List Segment}
    (h : Prints s tree segments) : Rereads s tree segments := by
  induction h with
  | number hn => exact rereads_number hn
  | named _ => exact rereads_named
  | assign _ _ ih => exact rereads_inParens (rereads_assign ih)
  | joined hjoins _ _ _ ihleft ihright =>
      exact rereads_inParens (rereads_joined hjoins ihleft ihright)
  | signed hop _ ih => exact rereads_inParens (rereads_signed hop ih)
  | negated _ ih => exact rereads_inParens (rereads_negated ih)
  | choose _ _ ihfirst ihothers => exact rereads_choose ihfirst ihothers
  | select _ _ ihsubject ihothers => exact rereads_select ihsubject ihothers
  | loop _ _ ihcondition ihbody => exact rereads_loop ihcondition ihbody
  | conditional _ _ ihcondition ihbody => exact rereads_conditional ihcondition ihbody
  | endif => exact rereads_endif
  | otherwise _ ih => exact rereads_otherwise ih
  | elif _ _ ihfirst ihothers => exact rereads_elif ihfirst ihothers
  | endswitch => exact rereads_endswitch
  | default _ ih => exact rereads_default ih
  | case _ _ _ ihguard ihbody ihothers => exact rereads_case ihguard ihbody ihothers
  | nil => exact rereads_nil
  | cons _ _ ihfirst ihothers => exact rereads_cons ihfirst ihothers

end Reckoner
