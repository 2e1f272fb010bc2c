import Reckoner.Proofs.Parser.Language

/-!
# Trees that tokens write

A parsed tree holds nothing but what its tokens wrote: its numbers stand at numerals, its names and
words at tokens, its operators are operators of the grammar, and it has no sequence inside.

* `Expr.parts` — an expression and all expressions in it;
* `Operator.IsBinary`, `Operator.IsUnary` — the operators of the grammar;
* `Expr.IsFrom` — a node that tokens wrote;
* `Spot` — the line of a token with the column of one;
* `Derives.isFrom`, `Program.isFrom` — all parts of a parsed tree are from its tokens.
-/

namespace Reckoner

/-! ## Parts -/

mutual

/-- The expression and all expressions in it. -/
def Expr.parts : Expr → List Expr
  | .num value pos => [.num value pos]
  | .var name pos => [.var name pos]
  | .assign name pos value => .assign name pos value :: value.parts
  | .binary op left right => .binary op left right :: (left.parts ++ right.parts)
  | .unary op operand => .unary op operand :: operand.parts
  | .sequence statements => .sequence statements :: Expr.partsAll statements
  | .choose pos arms => .choose pos arms :: arms.parts
  | .select pos subject arms => .select pos subject arms :: (subject.parts ++ arms.parts)
  | .loop pos condition body =>
    .loop pos condition body :: (condition.parts ++ Expr.partsAll body)

def Expr.partsAll : List Expr → List Expr
  | [] => []
  | e :: rest => e.parts ++ Expr.partsAll rest

def Arms.parts : Arms → List Expr
  | .none => []
  | .otherwise body => body.parts
  | .arm guard body rest => guard.parts ++ body.parts ++ rest.parts

end

/-- The parts of what a part of the grammar writes. -/
def Symbol.parts : (s : Symbol) → s.Tree → List Expr
  | .phrase _, e => Expr.parts e
  | .conditional, (condition, body) => condition.parts ++ body.parts
  | .chooseArms, arms => Arms.parts arms
  | .selectArms, arms => Arms.parts arms
  | .statements, es => Expr.partsAll es

/-! ## Nodes -/

/-- The operator joins operands on some level. -/
def Operator.IsBinary (op : Operator) : Prop :=
  ∃ level t, Joins level t ∧ t.operator = op

/-- The operator is a sign or a `not`. -/
def Operator.IsUnary (op : Operator) : Prop :=
  op.kind = .plus ∨ op.kind = .minus ∨ op = ⟨.keyword, "not"⟩

/-- The node, apart from what is below it, was written by tokens. -/
def Expr.IsFrom (ts : List Token) : Expr → Prop
  | .num _ pos => ∃ t ∈ ts, t.IsNumeral ∧ t.pos = pos
  | .binary op _ _ => op.IsBinary
  | .unary op _ => op.IsUnary
  | .sequence _ => False
  | .var _ pos | .assign _ pos _ | .choose pos _ | .select pos _ _ | .loop pos _ _ =>
    ∃ t ∈ ts, t.pos = pos

theorem Expr.IsFrom.mono {ts us : List Token} {e : Expr} (h : e.IsFrom ts) (hsub : ts ⊆ us) :
    e.IsFrom us := by
  cases e with
  | num value pos => exact h.imp fun t ht => ⟨hsub ht.1, ht.2⟩
  | binary op left right => exact h
  | unary op operand => exact h
  | sequence statements => exact h
  | var name pos | assign name pos value | choose pos arms | select pos subject arms
  | loop pos condition body => exact h.imp fun t ht => ⟨hsub ht.1, ht.2⟩

/-- All parts of a tree are written by the tokens that derive it. -/
theorem Derives.isFrom {value : Token → Number → Prop} {s : Symbol} {tree : s.Tree}
    {ts all : List Token} (h : Derives value s tree ts) (hall : ts ⊆ all) :
    ∀ part ∈ s.parts tree, part.IsFrom all := by
  -- Every token is one of all the tokens, so each constructor adds one node and keeps the others.
  induction h with
  | declare _ _ _ _ ih =>
      simp only [List.cons_subset] at hall
      exact List.forall_mem_cons.2 ⟨⟨_, hall.2.1, rfl⟩, ih hall.2.2.2⟩
  | assign _ _ _ ih =>
      simp only [List.cons_subset] at hall
      exact List.forall_mem_cons.2 ⟨⟨_, hall.1, rfl⟩, ih hall.2.2⟩
  | expression _ ih | first _ ih | compared _ ih | unsigned _ ih | grouped _ ih => exact ih hall
  | joined hop _ _ ihleft ihright =>
      simp only [List.append_subset, List.cons_subset] at hall
      exact List.forall_mem_cons.2 ⟨⟨_, _, hop, rfl⟩,
        List.forall_mem_append.2 ⟨ihleft hall.1, ihright hall.2.2⟩⟩
  | negated hop _ ih =>
      simp only [List.cons_subset] at hall
      have hnot := Parser.isKeyword_iff.1 hop
      exact List.forall_mem_cons.2 ⟨.inr (.inr (congrArg₂ _ hnot.1 hnot.2)), ih hall.2⟩
  | signed hop _ ih =>
      simp only [List.cons_subset] at hall
      exact List.forall_mem_cons.2 ⟨hop.imp_right .inl, ih hall.2⟩
  | number ht _ => exact List.forall_mem_singleton.2 ⟨_, hall (by simp), ht, rfl⟩
  | named _ => exact List.forall_mem_singleton.2 ⟨_, hall (by simp), rfl⟩
  | choose _ _ _ ihfirst ihothers =>
      simp only [List.cons_append, List.append_subset, List.cons_subset] at hall
      exact List.forall_mem_cons.2 ⟨⟨_, hall.1, rfl⟩,
        List.forall_mem_append.2 ⟨ihfirst hall.2.1, ihothers hall.2.2⟩⟩
  | select _ _ _ ihsubject iharms =>
      simp only [List.cons_append, List.append_subset, List.cons_subset] at hall
      exact List.forall_mem_cons.2 ⟨⟨_, hall.1, rfl⟩,
        List.forall_mem_append.2 ⟨ihsubject hall.2.1, iharms hall.2.2⟩⟩
  | loop _ _ _ _ _ ihcondition ihbody =>
      simp only [List.cons_append, List.append_assoc, List.append_subset, List.cons_subset] at hall
      exact List.forall_mem_cons.2 ⟨⟨_, hall.1, rfl⟩,
        List.forall_mem_append.2 ⟨ihcondition hall.2.1, ihbody hall.2.2.2.1⟩⟩
  | group _ _ _ ih =>
      simp only [List.cons_append, List.append_subset, List.cons_subset] at hall
      exact ih hall.2.1
  | conditional _ _ _ ihcondition ihbody =>
      simp only [List.append_subset, List.cons_subset] at hall
      exact List.forall_mem_append.2 ⟨ihcondition hall.1, ihbody hall.2.2⟩
  | endif _ | endswitch _ | nil => simp [Symbol.parts, Arms.parts, Expr.partsAll]
  | otherwise _ _ _ ih =>
      simp only [List.cons_append, List.append_subset, List.cons_subset] at hall
      exact ih hall.2.1
  | elif _ _ _ ihfirst ihothers =>
      simp only [List.cons_append, List.append_subset, List.cons_subset] at hall
      exact List.forall_mem_append.2 ⟨ihfirst hall.2.1, ihothers hall.2.2⟩
  | default _ _ _ _ ih =>
      simp only [List.cons_append, List.append_subset, List.cons_subset] at hall
      exact ih hall.2.2.1
  | case _ _ _ _ _ ihguard ihbody iharms =>
      simp only [List.cons_append, List.append_assoc, List.append_subset, List.cons_subset] at hall
      exact List.forall_mem_append.2 ⟨List.forall_mem_append.2
        ⟨ihguard hall.2.1, ihbody hall.2.2.2.1⟩, iharms hall.2.2.2.2⟩
  | cons _ _ ihfirst ihothers =>
      simp only [List.append_subset] at hall
      exact List.forall_mem_append.2 ⟨ihfirst hall.1, ihothers hall.2⟩

/-- All parts of a parsed program are written by the tokens of its source. -/
theorem Program.isFrom {limit : Nat} {source : List Char} {program : Program}
    (h : Program.ofSource limit source = .ok program) :
    ∃ tokens, Token.scan source = .ok tokens ∧
      ∀ part ∈ Expr.partsAll program, part.IsFrom tokens := by
  rcases Program.ofSource_eq_ok_iff.1 h with ⟨segments, hsplits, hreads⟩
  have hderives : Derives (fun _ _ => True) .statements program _ :=
    hreads.derives fun _ _ _ => trivial
  exact ⟨_, Token.scan_of_splits hsplits, hderives.isFrom (List.subset_append_left _ _)⟩

/-! ## Places -/

/-- The position has the line of a token and the column of a token. -/
def Spot (ts : List Token) (p : Position) : Prop :=
  (∃ t ∈ ts, t.pos.line = p.line) ∧ ∃ t ∈ ts, t.pos.column = p.column

theorem Spot.mono {ts us : List Token} {p : Position} (h : Spot ts p) (hsub : ts ⊆ us) :
    Spot us p :=
  ⟨h.1.imp fun _ ht => ⟨hsub ht.1, ht.2⟩, h.2.imp fun _ ht => ⟨hsub ht.1, ht.2⟩⟩

theorem spot_of_token {ts : List Token} {p : Position} (h : ∃ t ∈ ts, t.pos = p) : Spot ts p := by
  rcases h with ⟨t, ht, rfl⟩
  exact ⟨⟨t, ht, rfl⟩, t, ht, rfl⟩

/-- A tree from tokens stands at a spot of theirs; that of an operation is put together from its
operands. -/
theorem Expr.spot_pos {ts : List Token} :
    ∀ e : Expr, (∀ part ∈ e.parts, part.IsFrom ts) → Spot ts e.pos
  | .num value pos, h => by
      obtain ⟨t, ht, -, hpos⟩ := List.forall_mem_singleton.1 h
      exact spot_of_token ⟨t, ht, hpos⟩
  | .var name pos, h => spot_of_token (List.forall_mem_cons.1 h).1
  | .assign name pos value, h => spot_of_token (List.forall_mem_cons.1 h).1
  | .binary op left right, h => by
      have ⟨hleft, hright⟩ := List.forall_mem_append.1 (List.forall_mem_cons.1 h).2
      exact ⟨(Expr.spot_pos left hleft).1, (Expr.spot_pos right hright).2⟩
  | .unary op operand, h => Expr.spot_pos operand (List.forall_mem_cons.1 h).2
  | .sequence statements, h => (List.forall_mem_cons.1 h).1.elim
  | .choose pos arms, h => spot_of_token (List.forall_mem_cons.1 h).1
  | .select pos subject arms, h => spot_of_token (List.forall_mem_cons.1 h).1
  | .loop pos condition body, h => spot_of_token (List.forall_mem_cons.1 h).1

end Reckoner
