import Reckoner.Proofs.Reading

/-!
# Trees in other places

A tree holds the places of its names, numbers and words. What it says does not depend on them: the
same tokens in other places read as the same tree in those places.

* `Expr.mapPos` — a tree with every place moved;
* `Expr.unplaced` — a tree without its places;
* `Reads.mapPos` — moved tokens read as the moved tree.
-/

namespace Reckoner

mutual

/-- The expression with every place moved. -/
def Expr.mapPos (f : Position → Position) : Expr → Expr
  | .num value pos => .num value (f pos)
  | .var name pos => .var name (f pos)
  | .assign name pos value => .assign name (f pos) (value.mapPos f)
  | .binary op left right => .binary op (left.mapPos f) (right.mapPos f)
  | .unary op operand => .unary op (operand.mapPos f)
  | .sequence statements => .sequence (Expr.mapPosAll f statements)
  | .choose pos arms => .choose (f pos) (arms.mapPos f)
  | .select pos subject arms => .select (f pos) (subject.mapPos f) (arms.mapPos f)
  | .loop pos condition body => .loop (f pos) (condition.mapPos f) (Expr.mapPosAll f body)

/-- The statements with every place moved. -/
def Expr.mapPosAll (f : Position → Position) : List Expr → List Expr
  | [] => []
  | e :: rest => e.mapPos f :: Expr.mapPosAll f rest

/-- The arms with every place moved. -/
def Arms.mapPos (f : Position → Position) : Arms → Arms
  | .none => .none
  | .otherwise body => .otherwise (body.mapPos f)
  | .arm guard body rest => .arm (guard.mapPos f) (body.mapPos f) (rest.mapPos f)

end

@[simp] theorem Expr.mapPosAll_eq_map (f : Position → Position) (es : List Expr) :
    Expr.mapPosAll f es = es.map (Expr.mapPos f) := by
  induction es with
  | nil => simp [Expr.mapPosAll]
  | cons e es ih => simp [Expr.mapPosAll, ih]

/-- The expression without its places. -/
def Expr.unplaced (e : Expr) : Expr :=
  e.mapPos fun _ => .nowhere

/-- What a part of the grammar writes, with every place moved. -/
def Symbol.mapPos (f : Position → Position) : (s : Symbol) → s.Tree → s.Tree
  | .phrase _, e => Expr.mapPos f e
  | .conditional, (condition, body) => (condition.mapPos f, body.mapPos f)
  | .chooseArms, arms => Arms.mapPos f arms
  | .selectArms, arms => Arms.mapPos f arms
  | .statements, es => es.map (Expr.mapPos f)

/-- The token in another place. -/
def Token.mapPos (f : Position → Position) (t : Token) : Token :=
  { t with pos := f t.pos }

section

variable {f : Position → Position} {t : Token}

@[simp] theorem Token.mapPos_kind : (t.mapPos f).kind = t.kind := rfl

@[simp] theorem Token.mapPos_literal : (t.mapPos f).literal = t.literal := rfl

@[simp] theorem Token.mapPos_pos : (t.mapPos f).pos = f t.pos := rfl

@[simp] theorem Token.mapPos_operator : (t.mapPos f).operator = t.operator := rfl

@[simp] theorem Token.mapPos_isKeyword {word : String} :
    (t.mapPos f).isKeyword word = t.isKeyword word := rfl

@[simp] theorem Token.mapPos_isSign : (t.mapPos f).isSign = t.isSign := rfl

end

/-- Operators and numbers are what they are by kind and literal. -/
theorem Joins.of_eq {level : Level} {t u : Token} (h : Joins level t) (hkind : u.kind = t.kind)
    (hliteral : u.literal = t.literal) : Joins level u := by
  have hword : ∀ word, u.isKeyword word = t.isKeyword word := by
    intro word
    simp [Token.isKeyword, Token.is, hkind, hliteral]
  cases h with
  | logic h => exact .logic (by simpa only [hword] using h)
  | comparison h => exact .comparison (by rwa [hkind])
  | sum h => exact .sum (by rwa [hkind])
  | product h => exact .product (by rwa [hkind])
  | power h => exact .power (by rwa [hkind])

theorem Token.Denotes.of_eq {t u : Token} {n : Number} (h : t.Denotes n) (hkind : u.kind = t.kind)
    (hliteral : u.literal = t.literal) : u.Denotes n := by
  have hint : u.int = t.int := by simp [Token.int, hliteral]
  have hfloat : u.float = t.float := by simp [Token.float, hliteral]
  cases h with
  | int hk hi => exact .int (hkind.trans hk) (hint.trans hi)
  | wide hk hi hx => exact .wide (hkind.trans hk) (hint.trans hi) (hfloat.trans hx)
  | float hk hx => exact .float (hkind.trans hk) (hfloat.trans hx)

/-- Moved tokens read as the moved tree. -/
theorem Reads.mapPos {limit d : Nat} {s : Symbol} {tree : s.Tree} {ts : List Token}
    (f : Position → Position) (h : Reads limit d s tree ts) :
    Reads limit d s (s.mapPos f tree) (ts.map (Token.mapPos f)) := by
  -- Tokens are given by name where a moved tree does not determine them.
  induction h with
  | @declare _ v name equals _ _ hfits hv hname hequals _ ih =>
      exact @Reads.declare limit _ (v.mapPos f) (name.mapPos f) (equals.mapPos f) _ _
        hfits hv hname hequals ih
  | @assign _ name equals _ _ hfits hname hequals _ ih =>
      exact @Reads.assign limit _ (name.mapPos f) (equals.mapPos f) _ _ hfits hname hequals ih
  | expression hfits _ ih => exact .expression hfits ih
  | first _ ih => exact .first ih
  | @joined _ level op _ _ _ _ hlevel hop _ _ ihleft ihright =>
      rw [List.map_append, List.map_cons]
      exact @Reads.joined limit _ _ (op.mapPos f) _ _ _ _ hlevel (hop.of_eq rfl rfl) ihleft ihright
  | @raised _ op _ _ _ _ hop _ _ ihleft ihright =>
      rw [List.map_append, List.map_cons]
      exact @Reads.raised limit _ (op.mapPos f) _ _ _ _ hop ihleft ihright
  | @negated _ op _ _ hfits hop _ ih =>
      exact @Reads.negated limit _ (op.mapPos f) _ _ hfits hop ih
  | compared _ ih => exact .compared ih
  | @signed _ op _ _ hfits hop _ ih =>
      exact @Reads.signed limit _ (op.mapPos f) _ _ hfits hop ih
  | unsigned _ ih => exact .unsigned ih
  | @number _ t _ ht hn => exact @Reads.number limit _ (t.mapPos f) _ ht (hn.of_eq rfl rfl)
  | @named _ t ht => exact @Reads.named limit _ (t.mapPos f) ht
  | grouped _ ih => exact .grouped ih
  | @choose _ t _ _ _ _ _ ht _ _ ihfirst ihothers =>
      rw [List.cons_append, List.map_cons, List.map_append]
      exact @Reads.choose limit _ (t.mapPos f) _ _ _ _ _ ht ihfirst ihothers
  | @select _ t _ _ _ _ ht _ _ ihsubject iharms =>
      rw [List.cons_append, List.map_cons, List.map_append]
      exact @Reads.select limit _ (t.mapPos f) _ _ _ _ ht ihsubject iharms
  | @loop _ t opening closing _ _ _ _ ht hopening hclosing _ _ ihcondition ihbody =>
      have h := @Reads.loop limit _ (t.mapPos f) (opening.mapPos f) (closing.mapPos f) _ _ _ _
        ht hopening hclosing ihcondition ihbody
      simpa [Symbol.mapPos, Expr.mapPos] using h
  | @group _ opening closing _ _ hopening hclosing _ ih =>
      have h := @Reads.group limit _ (opening.mapPos f) (closing.mapPos f) _ _ hopening hclosing ih
      simpa [Symbol.mapPos] using h
  | conditional hopening _ _ ihcondition ihbody =>
      rw [List.map_append, List.map_cons]
      exact .conditional hopening ihcondition ihbody
  | endif ht => exact .endif ht
  | @otherwise _ t closing _ _ ht hclosing _ ih =>
      have h := @Reads.otherwise limit _ (t.mapPos f) (closing.mapPos f) _ _ ht hclosing ih
      simpa [Symbol.mapPos, Arms.mapPos] using h
  | elif ht _ _ ihfirst ihothers =>
      rw [List.cons_append, List.map_cons, List.map_append]
      exact .elif ht ihfirst ihothers
  | endswitch ht => exact .endswitch ht
  | @default _ t colon closing _ _ ht hcolon hclosing _ ih =>
      have h := @Reads.default limit _ (t.mapPos f) (colon.mapPos f) (closing.mapPos f) _ _
        ht hcolon hclosing ih
      simpa [Symbol.mapPos, Arms.mapPos] using h
  | @case _ t colon _ _ _ _ _ _ ht hcolon _ _ _ ihguard ihbody ihothers =>
      have h := @Reads.case limit _ (t.mapPos f) (colon.mapPos f) _ _ _ _ _ _
        ht hcolon ihguard ihbody ihothers
      simpa [Symbol.mapPos, Arms.mapPos] using h
  | nil => exact .nil
  | @cons _ _ _ _ us hsign _ _ ihfirst ihothers =>
      rw [List.map_append]
      refine .cons ?_ ihfirst ihothers
      intro t ht
      rw [List.head?_map] at ht
      rcases Option.map_eq_some_iff.1 ht with ⟨u, hu, rfl⟩
      exact hsign u hu

end Reckoner
