import Reckoner.Proofs.Parser.Cursor
import Reckoner.Proofs.Parser.Prospects

/-!
# Walks that do what the parser does

A walk over a list of tokens is compared with a computation over the tokens that are left, the end
of input apart, at a depth of nesting. Wherever the cursor stands, as long as it has these tokens
before it and the counter has that depth, both come to the same, and the walk moves the cursor by
the tokens that the computation takes. None of these is the end of input, so that the cursor always
has a token to go on to. A walk that comes to something leaves the counter as it was.

* `Cursor.Gone` — the cursor some tokens further;
* `Tracks` — a walk does what a computation does, and moves on by the tokens taken;
* `Tracks.bind` — one walk after another;
* `Tracks.nested` — a walk one level deeper;
* `Tracks.skip`, `Tracks.expect`, `Tracks.assigns` — the steps of the parser.
-/

namespace Reckoner.Parser

/-! ## Moving on -/

/-- The cursor stands so many tokens further, after as many moves. -/
structure Cursor.Gone (c : Cursor) (n : Nat) (after : Cursor) : Prop where
  pos : after.pos = c.pos + n
  moves : after.moves = (List.range' c.pos n).reverse ++ c.moves

namespace Cursor.Gone

variable {c mid after : Cursor} {n m : Nat}

theorem still : c.Gone 0 c :=
  ⟨rfl, rfl⟩

theorem trans (h : c.Gone n mid) (h' : mid.Gone m after) : c.Gone (n + m) after where
  pos := by rw [h'.pos, h.pos, Nat.add_assoc]
  moves := by
    rw [h'.moves, h.moves, h.pos, ← List.range'_append_1, List.reverse_append, List.append_assoc]

/-- The counter plays no part in where the cursor stands. -/
theorem nested (h : c.enter.Gone n after) : c.Gone n after.leave :=
  ⟨h.pos, h.moves⟩

end Cursor.Gone

/-- From a cursor that has the tokens `us` and the end of input left, and the counter at `d`, the
walk comes to what the computation on these tokens does. It takes those in front, none of which is
the end of input, and moves the cursor by as many. -/
def Tracks {α : Type} (x : Walk α) (y : Plain α) (r : Rules) (d : Nat) (us : List Token) : Prop :=
  ∀ (tokens : List Token) (c : Cursor), c.depth = d → tokens.drop c.pos = us ++ [r.stop] →
    ∃ taken mid after, us = taken ++ mid ∧ (∀ t ∈ taken, t.kind ≠ .eof) ∧
      x tokens c = some ((y r us).map (·.1), after) ∧ c.Gone taken.length after ∧
      ∀ a rest, y r us = .ok (a, rest) → rest = mid ∧ after.depth = d

variable {r : Rules} {us : List Token} {tokens : List Token} {c : Cursor}

theorem getElem?_of_drop (h : tokens.drop c.pos = us ++ [r.stop]) :
    tokens[c.pos]? = some (r.current us) := by
  rw [← List.head?_drop, h]
  cases us <;> rfl

theorem Walk.current_of_drop (h : tokens.drop c.pos = us ++ [r.stop]) :
    Walk.current tokens c = some (.ok (r.current us), c) := by
  rw [Walk.current, getElem?_of_drop h]
  rfl

theorem Cursor.Gone.drop {taken mid : List Token} {after : Cursor}
    (hgone : c.Gone taken.length after) (h : tokens.drop c.pos = (taken ++ mid) ++ [r.stop]) :
    tokens.drop after.pos = mid ++ [r.stop] := by
  rw [hgone.pos, ← List.drop_drop, h, List.append_assoc, List.drop_left]

theorem Walk.peek_of_drop {t : Token} (h : tokens.drop c.pos = (t :: us) ++ [r.stop]) :
    Walk.peek tokens c = some (.ok (r.current us), c) := by
  have hbehind : tokens[c.pos + 1]? = some (r.current us) := by
    rw [← List.getElem?_drop, h]
    cases us <;> rfl
  rw [Walk.peek, hbehind]
  rfl

/-- To ask for a token is to look at the one at hand and then to take it. -/
theorem expect_steps {wanted : Wanted} (hstop : r.stop.kind = .eof) :
    Plain.expect wanted r us =
      (do
        let t ← Plain.current
        if wanted.accepts t then do
          Plain.skip
          pure t
        else Plain.lift (.error ⟨.unexpected wanted t, t.pos⟩) : Plain Token) r us := by
  rw [Plain.current_bind]
  by_cases haccepts : wanted.accepts (r.current us)
  · rw [if_pos haccepts]
    cases us with
    | nil => cases (accepts_eq_false_of_eof hstop).symm.trans haccepts
    | cons t vs => exact expect_of_accepts haccepts
  · rw [if_neg haccepts]
    exact expect_of_not_accepts (Bool.eq_false_iff.2 haccepts)

namespace Tracks

variable {α β : Type} {d : Nat} {x x' : Walk α} {y y' : Plain α}

/-- A step that leaves the cursor as it is. -/
theorem of_still {o : Except Fault α}
    (hx : ∀ tokens c, tokens.drop c.pos = us ++ [r.stop] → x tokens c = some (o, c))
    (hy : y r us = o.map (·, us)) : Tracks x y r d us := by
  intro tokens c hdepth hdrop
  refine ⟨[], us, c, rfl, fun t ht => absurd ht List.not_mem_nil, ?_, .still, ?_⟩
  · rw [hx tokens c hdrop, hy]
    cases o <;> rfl
  · intro a rest hrun
    rw [hy] at hrun
    cases o with
    | error fault => cases hrun
    | ok a =>
        cases hrun
        exact ⟨rfl, hdepth⟩

theorem pure (a : α) : Tracks (Pure.pure a) (Pure.pure a) r d us :=
  of_still (o := .ok a) (fun _ _ _ => rfl) rfl

theorem lift (o : Except Fault α) : Tracks (.lift o) (.lift o) r d us :=
  of_still (fun _ _ _ => rfl) rfl

theorem congr (hy : y r us = y' r us) (h : Tracks x y' r d us) : Tracks x y r d us := by
  intro tokens c hdepth hdrop
  rw [hy]
  exact h tokens c hdepth hdrop

/-- One walk after another: the second goes on where the first has left the cursor. -/
theorem bind {k : α → Walk β} {k' : α → Plain β} (hx : Tracks x y r d us)
    (hk : ∀ a mid, y r us = .ok (a, mid) → Tracks (k a) (k' a) r d mid) :
    Tracks (x >>= k) (y >>= k') r d us := by
  intro tokens c hdepth hdrop
  obtain ⟨taken, mid, between, rfl, hfree, hrun, hgone, hleft⟩ := hx tokens c hdepth hdrop
  cases hy : y r (taken ++ mid) with
  | error fault =>
      have hfault : (y >>= k') r (taken ++ mid) = .error fault := Plain.bind_of_error hy
      rw [hy] at hrun
      refine ⟨taken, mid, between, rfl, hfree, ?_, hgone, fun a rest hrest => ?_⟩
      · rw [Walk.bind_of_error hrun, hfault]
        rfl
      · rw [hfault] at hrest
        cases hrest
  | ok answer =>
      -- The first takes `taken` and the second `more` behind it; the cursor moves over both.
      rcases answer with ⟨a, rest⟩
      obtain ⟨rfl, hbetween⟩ := hleft a rest hy
      have hanswer : (y >>= k') r (taken ++ rest) = k' a r rest := Plain.bind_of_ok hy
      rw [hy] at hrun
      obtain ⟨more, last, after, rfl, hmore, hnext, hon, hlast⟩ :=
        hk a rest hy tokens between hbetween (hgone.drop hdrop)
      refine ⟨taken ++ more, last, after, (List.append_assoc ..).symm, ?_, ?_, ?_, ?_⟩
      · exact fun t ht => (List.mem_append.1 ht).elim (hfree t) (hmore t)
      · rw [Walk.bind_of_ok hrun, hanswer]
        exact hnext
      · rw [List.length_append]
        exact hgone.trans hon
      · rw [hanswer]
        exact hlast

theorem ite {p : Prop} [Decidable p] (hx : p → Tracks x y r d us)
    (hx' : ¬ p → Tracks x' y' r d us) :
    Tracks (if p then x else x') (if p then y else y') r d us := by
  split
  · next hp => exact hx hp
  · next hp => exact hx' hp

/-! ### Steps -/

theorem current {k : Token → Walk α} {k' : Token → Plain α}
    (h : ∀ t, t = r.current us → Tracks (k t) (k' t) r d us) :
    Tracks (Walk.current >>= k) (Plain.current >>= k') r d us := by
  have hcurrent : Tracks Walk.current Plain.current r d us :=
    of_still (o := .ok (r.current us)) (fun _ _ hdrop => Walk.current_of_drop hdrop) rfl
  refine hcurrent.bind ?_
  rintro t mid ⟨⟩
  exact h _ rfl

/-- A token in front of the end of input is taken. -/
theorem skip_cons {t : Token} {k : Unit → Walk α} {k' : Unit → Plain α} (hkind : t.kind ≠ .eof)
    (h : Tracks (k ()) (k' ()) r d us) :
    Tracks (Walk.skip >>= k) (Plain.skip >>= k') r d (t :: us) := by
  have hskip : Tracks Walk.skip Plain.skip r d (t :: us) := by
    intro tokens c hdepth hdrop
    have hinside : c.pos + 1 < tokens.length := by
      have hlength := congrArg List.length hdrop
      simp only [List.length_drop, List.length_append, List.length_cons, List.length_nil] at hlength
      omega
    refine ⟨[t], us, { c with pos := c.pos + 1, moves := c.pos :: c.moves }, rfl,
      by simpa using hkind, ?_, ⟨rfl, rfl⟩, ?_⟩
    · rw [Walk.skip, if_pos hinside, List.getElem?_eq_getElem hinside]
      rfl
    · rintro a rest ⟨⟩
      exact ⟨rfl, hdepth⟩
  refine hskip.bind ?_
  rintro a mid ⟨⟩
  exact h

theorem skip {t : Token} {k : Unit → Walk α} {k' : Unit → Plain α} (hstop : r.stop.kind = .eof)
    (ht : t = r.current us) (hkind : t.kind ≠ .eof)
    (h : ∀ vs, vs.length < us.length → Tracks (k ()) (k' ()) r d vs) :
    Tracks (Walk.skip >>= k) (Plain.skip >>= k') r d us := by
  subst ht
  cases us with
  | nil => exact absurd hstop hkind
  | cons t vs => exact skip_cons hkind (h vs (Nat.lt_succ_self _))

theorem expect {wanted : Wanted} {k : Token → Walk α} {k' : Token → Plain α}
    (hstop : r.stop.kind = .eof)
    (h : ∀ t vs, vs.length < us.length → Tracks (k t) (k' t) r d vs) :
    Tracks (Walk.expect wanted >>= k) (Plain.expect wanted >>= k') r d us := by
  have hexpect : Tracks (Walk.expect wanted) (Plain.expect wanted) r d us := by
    refine .congr (expect_steps hstop) ?_
    refine .current fun t ht => .ite (fun haccepts => ?_) fun _ => .lift _
    refine .skip hstop ht (fun heof => ?_) fun vs _ => .pure t
    cases (accepts_eq_false_of_eof heof).symm.trans haccepts
  exact hexpect.bind fun t mid hrun => h t mid (yields_of_bare hrun).shorter

/-- One level deeper: the counter is raised before the walk, and back where it was after it. -/
theorem nested {k : Nat → Plain α} (h : Tracks x (k (d + 1)) r (d + 1) us) :
    Tracks (Walk.nested r.limit x) (Plain.enter d >>= k) r d us := by
  intro tokens c hdepth hdrop
  subst hdepth
  by_cases hdeep : 0 < r.limit ∧ r.limit < c.depth + 1
  · -- Both stop at the token at hand, before the walk has begun.
    have hfault : (Plain.enter c.depth >>= k) r us =
        .error ⟨.tooDeep r.limit, (r.current us).pos⟩ := by
      refine Plain.bind_of_error ?_
      rw [Plain.enter, Rules.enter, if_pos hdeep]
      rfl
    refine ⟨[], us, c.enter, rfl, fun t ht => absurd ht List.not_mem_nil, ?_, ⟨rfl, rfl⟩, ?_⟩
    · rw [Walk.nested_of_lt (getElem?_of_drop hdrop) hdeep, hfault]
      rfl
    · rw [hfault]
      rintro a rest ⟨⟩
  · have hinside : (Plain.enter c.depth >>= k) r us = k (c.depth + 1) r us := by
      refine Plain.bind_of_ok ?_
      rw [Plain.enter, Rules.enter, if_neg hdeep]
      rfl
    obtain ⟨taken, mid, after, hus, hfree, hrun, hgone, hleft⟩ := h tokens c.enter rfl hdrop
    refine ⟨taken, mid, after.leave, hus, hfree, ?_, hgone.nested, ?_⟩
    · rw [Walk.nested_of_le (getElem?_of_drop hdrop) hdeep, hrun, hinside]
      rfl
    · rw [hinside]
      intro a rest hanswer
      obtain ⟨hrest, hafter⟩ := hleft a rest hanswer
      exact ⟨hrest, by rw [Cursor.leave, hafter, Nat.add_sub_cancel]⟩

/-- A name stands in front of the end of input, so that there is a token behind it to look at. -/
theorem assigns {k : Bool → Walk α} {k' : Bool → Plain α} (hstop : r.stop.kind = .eof)
    (hfalse : Tracks (k false) (k' false) r d us)
    (htrue : ∀ t u vs, us = t :: u :: vs → t.kind = .identifier → u.kind = .assign →
      Tracks (k true) (k' true) r d us) :
    Tracks (Walk.assigns >>= k) (Plain.assigns >>= k') r d us := by
  cases us with
  | nil =>
      have hassigns : Tracks Walk.assigns Plain.assigns r d [] := by
        refine of_still (o := .ok false) (fun tokens c hdrop => ?_) rfl
        rw [Walk.assigns, Walk.bind_of_ok (Walk.current_of_drop hdrop), Rules.current_nil,
          if_neg (by simp [hstop])]
        rfl
      refine hassigns.bind ?_
      rintro b mid ⟨⟩
      exact hfalse
  | cons t vs =>
      have hassigns : Tracks Walk.assigns Plain.assigns r d (t :: vs) := by
        refine of_still (o := .ok (t.kind == .identifier && (r.current vs).kind == .assign))
          (fun tokens c hdrop => ?_) (assigns_cons hstop t vs)
        rw [Walk.assigns, Walk.bind_of_ok (Walk.current_of_drop hdrop), Rules.current_cons]
        by_cases hname : t.kind = .identifier
        · rw [if_pos hname, Walk.bind_of_ok (Walk.peek_of_drop hdrop)]
          simp only [hname, BEq.rfl, Bool.true_and]
          rfl
        · rw [if_neg hname, beq_eq_false_iff_ne.2 hname]
          rfl
      refine hassigns.bind fun b mid hrun => ?_
      rw [assigns_cons hstop] at hrun
      obtain ⟨hb, rfl⟩ := Prod.mk.inj (Except.ok.inj hrun)
      cases b with
      | false => exact hfalse
      | true =>
          rw [Bool.and_eq_true, beq_iff_eq, beq_iff_eq] at hb
          cases vs with
          | nil => cases hstop.symm.trans hb.2
          | cons u vs => exact htrue t u vs rfl hb.1 hb.2

end Tracks

end Reckoner.Parser
