import Reckoner.Proofs.Parser.Plain
import Reckoner.Proofs.Places

/-!
# How far the parser looks

The outcome of a computation over tokens depends on the tokens that it takes and on the one at hand
when it ends: on other tokens that begin with these, possibly in other places, it comes to the same,
possibly in other places. A fault of the grammar is reported at the token at hand.

* `Cause.mapPos`, `Fault.mapPos` — faults with their places moved;
* `Beside` — the tokens that are left begin with the same token, up to places;
* `Local` — a computation that looks no further than that, and what holds where it fails;
* `Local.bind`, `Local.expect`, `Local.skip` and their companions — the rules for it.
-/

namespace Reckoner

/-! ## Faults in other places -/

variable {f : Position → Position}

/-- The cause with the places of its tokens moved. -/
def Cause.mapPos (f : Position → Position) : Cause → Cause
  | .unexpected wanted got => .unexpected wanted (got.mapPos f)
  | cause => cause

/-- The fault with every place moved. -/
def Fault.mapPos (f : Position → Position) (fault : Fault) : Fault :=
  ⟨fault.cause.mapPos f, f fault.pos⟩

theorem Fault.mapPos_code (fault : Fault) : (fault.mapPos f).code = fault.code := by
  rcases fault with ⟨cause, pos⟩
  cases cause <;> rfl

theorem Fault.mapPos_message (fault : Fault) : (fault.mapPos f).message = fault.message := by
  rcases fault with ⟨cause, pos⟩
  cases cause <;> rfl

namespace Parser

variable {r r' : Rules} {ts rest us : List Token}

/-! ## Literals and tokens that are asked for -/

theorem literal_error_pos {t : Token} {fault : Fault} (h : literal t = .error fault) :
    fault.pos = t.pos := by
  unfold literal at h
  dsimp only at h
  split at h
  · cases h
  · cases h
    rfl

theorem literal_mapPos {t : Token} :
    literal (t.mapPos f) = (literal t).mapError (Fault.mapPos f) := by
  have hfloat : (t.mapPos f).float = t.float := rfl
  unfold literal
  simp only [hfloat, Token.mapPos_kind, Token.mapPos_literal]
  split <;> rfl

theorem accepts_eq_false_of_eof {wanted : Wanted} {t : Token} (h : t.kind = .eof) :
    wanted.accepts t = false := by
  cases wanted with
  | keyword word => exact isKeyword_eq_false_of_kind (by simp [h])
  | _ => simp [Wanted.accepts, h]

theorem accepts_mapPos {wanted : Wanted} {t : Token} :
    wanted.accepts (t.mapPos f) = wanted.accepts t := by
  cases wanted <;> rfl

theorem level_accepts_mapPos {level : Level} {t : Token} :
    level.accepts (t.mapPos f) = level.accepts t := by
  cases level <;> rfl

theorem expect_of_not_accepts {wanted : Wanted} (h : wanted.accepts (r.current ts) = false) :
    Plain.expect wanted r ts =
      .error ⟨.unexpected wanted (r.current ts), (r.current ts).pos⟩ := by
  cases ts with
  | nil => rfl
  | cons t us =>
      have ht : ¬ wanted.accepts t := by simpa [Rules.current_cons] using h
      rw [Plain.expect, Rules.expect, if_neg ht]
      rfl

theorem expect_of_accepts {wanted : Wanted} {t : Token} (h : wanted.accepts t) :
    Plain.expect wanted r (t :: us) = .ok (t, us) := by
  rw [Plain.expect, Rules.expect, if_pos h]
  rfl

/-! ## Computations that look no further -/

/-- Under the same limit the token at hand is the same up to its place. -/
structure Beside (f : Position → Position) (r : Rules) (rest : List Token) (r' : Rules)
    (us : List Token) : Prop where
  limit : r'.limit = r.limit
  stop : r'.stop.kind = .eof
  current : r'.current us = (r.current rest).mapPos f

theorem Beside.append (h : Beside f r rest r' us) (taken : List Token) :
    Beside f r (taken ++ rest) r' (taken.map (Token.mapPos f) ++ us) where
  limit := h.limit
  stop := h.stop
  current := by
    cases taken with
    | nil => exact h.current
    | cons t taken => rfl

/-- The outcome with its places moved by `move`, and other tokens left. -/
def moved {α : Type} (move : α → α) (f : Position → Position) (us : List Token) :
    Except Fault (α × List Token) → Except Fault (α × List Token)
  | .ok (a, _) => .ok (move a, us)
  | .error fault => .error (fault.mapPos f)

/-- From the tokens `taken ++ rest` the computation takes those in front and looks at the one behind
them; where the grammar fails, it does so at that one, and they satisfy `P`. On moved tokens the
computation `y` comes to the same. -/
structure LocalAt {α : Type} (P : List Token → Token → Prop)
    (move : (Position → Position) → α → α) (x : Plain α) (y : (Position → Position) → Plain α)
    (r : Rules) (taken rest : List Token) : Prop where
  left : ∀ {a mid}, x r (taken ++ rest) = .ok (a, mid) → mid = rest
  fails : ∀ {fault}, x r (taken ++ rest) = .error fault → fault.code = .grammar →
    fault.pos = (r.current rest).pos ∧ P taken (r.current rest)
  follows : ∀ {f r' us}, Beside f r rest r' us →
    y f r' (taken.map (Token.mapPos f) ++ us) = moved (move f) f us (x r (taken ++ rest))

/-- The computation looks no further than one token behind those it takes. -/
def Local {α : Type} (P : List Token → Token → Prop) (move : (Position → Position) → α → α)
    (x : Plain α) (y : (Position → Position) → Plain α) (r : Rules) (ts : List Token) : Prop :=
  ∃ taken rest, ts = taken ++ rest ∧ LocalAt P move x y r taken rest

namespace Local

variable {α β : Type} {P Q : List Token → Token → Prop} {move : (Position → Position) → α → α}
  {moveβ : (Position → Position) → β → β} {x x' : Plain α} {y y' : (Position → Position) → Plain α}

theorem mono (h : Local P move x y r ts) (hPQ : ∀ taken t, P taken t → Q taken t) :
    Local Q move x y r ts := by
  obtain ⟨taken, rest, hts, hat⟩ := h
  refine ⟨taken, rest, hts, hat.left, ?_, hat.follows⟩
  intro fault hfault hcode
  exact (hat.fails hfault hcode).imp_right (hPQ _ _)

theorem congr (hx : x r ts = x' r ts)
    (hy : ∀ f r' us, r'.stop.kind = .eof → y f r' us = y' f r' us) (h : Local P move x' y' r ts) :
    Local P move x y r ts := by
  obtain ⟨taken, rest, rfl, hat⟩ := h
  refine ⟨taken, rest, rfl, ?_, ?_, ?_⟩
  · rw [hx]
    exact hat.left
  · rw [hx]
    exact hat.fails
  · intro f r' us hbeside
    rw [hx, hy f r' _ hbeside.stop]
    exact hat.follows hbeside

theorem pure (a : α) : Local P move (Pure.pure a) (fun f => Pure.pure (move f a)) r ts := by
  refine ⟨[], ts, rfl, ?_, ?_, ?_⟩
  · rintro b mid ⟨⟩
    rfl
  · rintro fault ⟨⟩
  · intro f r' us _
    rfl

theorem fail {fault : Fault}
    (h : fault.code = .grammar → fault.pos = (r.current ts).pos ∧ P [] (r.current ts)) :
    Local P move (Plain.lift (.error fault)) (fun f => Plain.lift (.error (fault.mapPos f)))
      r ts := by
  refine ⟨[], ts, rfl, ?_, ?_, ?_⟩
  · rintro b mid ⟨⟩
  · rintro fault ⟨⟩
    exact h
  · intro f r' us _
    rfl

/-- One computation after another: what the second needs, it needs behind the tokens of the first.
-/
theorem bind {k : α → Plain β} {k' : (Position → Position) → α → Plain β}
    (hx : Local P move x y r ts)
    (hk : ∀ a taken mid, x r ts = .ok (a, mid) → ts = taken ++ mid →
      Local (fun more t => P (taken ++ more) t) moveβ (k a) (fun f => k' f (move f a)) r mid) :
    Local P moveβ (x >>= k) (fun f => y f >>= k' f) r ts := by
  obtain ⟨taken, rest, rfl, hat⟩ := hx
  cases hrun : x r (taken ++ rest) with
  | error fault =>
      have hbind : (x >>= k) r (taken ++ rest) = .error fault := Plain.bind_of_error hrun
      refine ⟨taken, rest, rfl, ?_, ?_, ?_⟩
      · rw [hbind]
        rintro a mid ⟨⟩
      · rw [hbind]
        rintro fault ⟨⟩
        exact hat.fails hrun
      · intro f r' us hbeside
        have hfollows := hat.follows hbeside
        rw [hrun] at hfollows
        rw [hbind, Plain.bind_of_error hfollows]
        rfl
  | ok answer =>
      -- The first takes `taken` and the second `more` behind it, so together they look at `last`.
      rcases answer with ⟨a, mid⟩
      obtain rfl := hat.left hrun
      obtain ⟨more, last, rfl, hmore⟩ := hk a taken mid hrun rfl
      have hbind : (x >>= k) r (taken ++ (more ++ last)) = k a r (more ++ last) :=
        Plain.bind_of_ok hrun
      rw [← List.append_assoc] at hbind
      refine ⟨taken ++ more, last, (List.append_assoc ..).symm, ?_, ?_, ?_⟩
      · rw [hbind]
        exact hmore.left
      · rw [hbind]
        exact hmore.fails
      · intro f r' us hbeside
        have hfollows := hat.follows (hbeside.append more)
        rw [hrun] at hfollows
        rw [hbind, List.map_append, List.append_assoc, Plain.bind_of_ok hfollows]
        exact hmore.follows hbeside

theorem ite {p : Prop} {q : (Position → Position) → Prop} [Decidable p] [∀ f, Decidable (q f)]
    (hpq : ∀ f, q f ↔ p) (hx : p → Local P move x y r ts) (hx' : ¬ p → Local P move x' y' r ts) :
    Local P move (if p then x else x') (fun f => if q f then y f else y' f) r ts := by
  by_cases hp : p
  · have hy : (fun f => if q f then y f else y' f) = y := funext fun f => if_pos ((hpq f).2 hp)
    rw [if_pos hp, hy]
    exact hx hp
  · have hy : (fun f => if q f then y f else y' f) = y' :=
      funext fun f => if_neg fun hq => hp ((hpq f).1 hq)
    rw [if_neg hp, hy]
    exact hx' hp

/-! ## The steps -/

/-- To look at the token at hand is to look no further. -/
theorem current {k : Token → Plain α} {k' : (Position → Position) → Token → Plain α}
    (h : ∀ t, t = r.current ts → Local P move (k t) (fun f => k' f (t.mapPos f)) r ts) :
    Local P move (Plain.current >>= k) (fun f => Plain.current >>= k' f) r ts := by
  obtain ⟨taken, rest, rfl, hat⟩ := h _ rfl
  refine ⟨taken, rest, rfl, hat.left, hat.fails, ?_⟩
  intro f r' us hbeside
  rw [Plain.current_bind, (hbeside.append taken).current]
  exact hat.follows hbeside

/-- Behind a computation that takes nothing. -/
theorem bind_still {k : α → Plain β} {k' : (Position → Position) → α → Plain β}
    (hx : LocalAt P move x y r [] ts)
    (hk : ∀ a, Local P moveβ (k a) (fun f => k' f (move f a)) r ts) :
    Local P moveβ (x >>= k) (fun f => y f >>= k' f) r ts := by
  have hlocal : Local P move x y r ts := ⟨[], ts, rfl, hx⟩
  refine hlocal.bind ?_
  intro a taken mid hrun hts
  obtain rfl := hx.left hrun
  obtain rfl : taken = [] := List.self_eq_append_left.1 hts
  exact hk a

/-- To enter a level of nesting may be refused, but not by the grammar. -/
theorem enter {d : Nat} {k : Nat → Plain α} {k' : (Position → Position) → Nat → Plain α}
    (h : ∀ n, Local P move (k n) (fun f => k' f n) r ts) :
    Local P move (Plain.enter d >>= k) (fun f => Plain.enter d >>= k' f) r ts := by
  have henter : LocalAt P (fun _ n => n) (Plain.enter d) (fun _ => Plain.enter d) r [] ts := by
    refine ⟨?_, ?_, ?_⟩
    · intro n mid hrun
      unfold Plain.enter Rules.enter at hrun
      split at hrun <;> cases hrun
      rfl
    · intro fault hrun hcode
      unfold Plain.enter Rules.enter at hrun
      split at hrun <;> cases hrun
      cases hcode
    · intro f r' us hbeside
      simp only [Plain.enter, Rules.enter, List.map_nil, List.nil_append, hbeside.limit,
        hbeside.current]
      split <;> rfl
  exact bind_still henter h

/-- The number of a literal is read before the literal is taken. -/
theorem literal {t : Token} {k : Number → Plain α} {k' : (Position → Position) → Number → Plain α}
    (ht : t = r.current ts) (hP : P [] t) (h : ∀ n, Local P move (k n) (fun f => k' f n) r ts) :
    Local P move (Plain.lift (Parser.literal t) >>= k)
      (fun f => Plain.lift (Parser.literal (t.mapPos f)) >>= k' f) r ts := by
  have hliteral : LocalAt P (fun _ n => n) (Plain.lift (Parser.literal t))
      (fun f => Plain.lift (Parser.literal (t.mapPos f))) r [] ts := by
    refine ⟨?_, ?_, ?_⟩
    · intro n mid hrun
      unfold Plain.lift at hrun
      cases hread : Parser.literal t with
      | error fault =>
          rw [hread] at hrun
          cases hrun
      | ok n =>
          rw [hread] at hrun
          cases hrun
          rfl
    · intro fault hrun _
      unfold Plain.lift at hrun
      cases hread : Parser.literal t with
      | error fault =>
          rw [hread] at hrun
          cases hrun
          exact ht ▸ ⟨literal_error_pos hread, hP⟩
      | ok n =>
          rw [hread] at hrun
          cases hrun
    · intro f r' us _
      simp only [Plain.lift, literal_mapPos, List.map_nil, List.nil_append]
      cases Parser.literal t <;> rfl
  exact bind_still hliteral h

/-- Behind tokens that are taken in any case. -/
theorem of_front {front : List Token} {z : Plain α} {z' : (Position → Position) → Plain α}
    (hx : x r (front ++ us) = z r us)
    (hy : ∀ f r' vs, y f r' (front.map (Token.mapPos f) ++ vs) = z' f r' vs)
    (h : Local (fun taken t => P (front ++ taken) t) move z z' r us) :
    Local P move x y r (front ++ us) := by
  obtain ⟨taken, rest, rfl, hat⟩ := h
  rw [← List.append_assoc] at hx
  refine ⟨front ++ taken, rest, (List.append_assoc ..).symm, ?_, ?_, ?_⟩
  · rw [hx]
    exact hat.left
  · rw [hx]
    exact hat.fails
  · intro f r' vs hbeside
    rw [hx, List.map_append, List.append_assoc, hy]
    exact hat.follows hbeside

theorem of_front_pair {t u : Token} {z : Plain α} {z' : (Position → Position) → Plain α}
    (hx : x r (t :: u :: us) = z r us)
    (hy : ∀ f r' vs, y f r' (t.mapPos f :: u.mapPos f :: vs) = z' f r' vs)
    (h : Local (fun taken w => P (t :: u :: taken) w) move z z' r us) :
    Local P move x y r (t :: u :: us) :=
  @of_front _ _ _ _ _ _ _ [t, u] _ _ hx hy h

/-- Another token than the end of input may be taken. -/
theorem skip {t : Token} {k : Unit → Plain α} {k' : (Position → Position) → Unit → Plain α}
    (hstop : r.stop.kind = .eof) (ht : t = r.current ts) (hkind : t.kind ≠ .eof)
    (h : ∀ us, ts = t :: us →
      Local (fun taken u => P (t :: taken) u) move (k ()) (fun f => k' f ()) r us) :
    Local P move (Plain.skip >>= k) (fun f => Plain.skip >>= k' f) r ts := by
  subst ht
  cases ts with
  | nil => exact absurd hstop hkind
  | cons t us => exact @of_front _ _ _ _ _ _ _ [t] _ _ rfl (fun _ _ _ => rfl) (h us rfl)

/-- What is asked for is the token at hand, or the grammar fails at it. -/
theorem expect {wanted : Wanted} {k : Token → Plain α}
    {k' : (Position → Position) → Token → Plain α} (hstop : r.stop.kind = .eof)
    (hP : P [] (r.current ts) ∨ wanted.accepts (r.current ts))
    (h : ∀ t us, ts = t :: us → wanted.accepts t →
      Local (fun taken u => P (t :: taken) u) move (k t) (fun f => k' f (t.mapPos f)) r us) :
    Local P move (Plain.expect wanted >>= k) (fun f => Plain.expect wanted >>= k' f) r ts := by
  by_cases haccepts : wanted.accepts (r.current ts)
  · cases ts with
    | nil =>
        rw [Rules.current_nil, accepts_eq_false_of_eof hstop] at haccepts
        cases haccepts
    | cons t us =>
        rw [Rules.current_cons] at haccepts
        refine @of_front _ _ _ _ _ _ _ [t] _ _ (Plain.bind_of_ok (expect_of_accepts haccepts)) ?_
          (h t us rfl haccepts)
        intro f r' vs
        exact Plain.bind_of_ok (expect_of_accepts (accepts_mapPos.trans haccepts))
  · have hrefused := Bool.eq_false_iff.2 haccepts
    have hexpect : LocalAt P Token.mapPos (Plain.expect wanted) (fun _ => Plain.expect wanted) r
        [] ts := by
      refine ⟨?_, ?_, ?_⟩
      · rw [List.nil_append, expect_of_not_accepts hrefused]
        rintro a mid ⟨⟩
      · rw [List.nil_append, expect_of_not_accepts hrefused]
        rintro fault ⟨⟩ _
        exact ⟨rfl, hP.resolve_right haccepts⟩
      · intro f r' us hbeside
        have hmoved : wanted.accepts (r'.current us) = false := by
          rw [hbeside.current, accepts_mapPos, hrefused]
        rw [List.nil_append, expect_of_not_accepts hrefused, List.map_nil, List.nil_append,
          expect_of_not_accepts hmoved, hbeside.current]
        rfl
    have hlocal : Local P Token.mapPos (Plain.expect wanted) (fun _ => Plain.expect wanted) r ts :=
      ⟨[], ts, rfl, hexpect⟩
    refine hlocal.bind ?_
    intro a taken mid hrun
    rw [expect_of_not_accepts hrefused] at hrun
    cases hrun

end Local
end Parser
end Reckoner
