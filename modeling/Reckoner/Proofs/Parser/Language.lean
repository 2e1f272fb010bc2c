import Mathlib.Data.List.Forall2
import Reckoner.Proofs.Parser.Completeness
import Reckoner.Proofs.Parser.Soundness
import Reckoner.Proofs.Splitting

/-!
# The language of the parser

Without a limit on nesting the parser accepts the lists of tokens that the grammar derives, as long
as their literals are numbers. The grammar leaves open where a statement ends; a parser that lets
each one take all it can still misses nothing, because a statement and one behind it that begins
with a sign are together one statement, and a tower of powers is one power however it is taken
apart.

* `Readable` — the tokens have a reading when nesting has no limit;
* `Extends` — a phrase stays one with these tokens behind it;
* `readable_of_derives` — what has a derivation has a reading;
* `Program.ofSource_eq_ok_iff` — sources, by their pieces and readings;
* `Program.ofTokens_isOk_iff_derives` — the parser and the grammar agree.
-/

namespace Reckoner

/-! ## Readings without a limit -/

theorem fits_zero (d : Nat) : Fits 0 d :=
  .inl rfl

/-- Without a limit, depth does not matter. -/
theorem Reads.any_depth {d : Nat} {s : Symbol} {tree : s.Tree} {ts : List Token}
    (h : Reads 0 d s tree ts) : ∀ d', Reads 0 d' s tree ts := by
  induction h with
  | declare _ hv hname hequals _ ih =>
      exact fun d' => .declare (fits_zero d') hv hname hequals (ih _)
  | assign _ hname hequals _ ih => exact fun d' => .assign (fits_zero d') hname hequals (ih _)
  | expression _ _ ih => exact fun d' => .expression (fits_zero d') (ih _)
  | first _ ih => exact fun d' => .first (ih d')
  | joined hlevel hop _ _ ihleft ihright =>
      exact fun d' => .joined hlevel hop (ihleft d') (ihright d')
  | raised hop _ _ ihleft ihright => exact fun d' => .raised hop (ihleft d') (ihright d')
  | negated _ hop _ ih => exact fun d' => .negated (fits_zero d') hop (ih _)
  | compared _ ih => exact fun d' => .compared (ih d')
  | signed _ hop _ ih => exact fun d' => .signed (fits_zero d') hop (ih _)
  | unsigned _ ih => exact fun d' => .unsigned (ih d')
  | number ht hn => exact fun _ => .number ht hn
  | named ht => exact fun _ => .named ht
  | grouped _ ih => exact fun d' => .grouped (ih d')
  | choose ht _ _ ihfirst ihothers => exact fun d' => .choose ht (ihfirst d') (ihothers d')
  | select ht _ _ ihsubject iharms => exact fun d' => .select ht (ihsubject d') (iharms d')
  | loop ht hopening hclosing _ _ ihcondition ihbody =>
      exact fun d' => .loop ht hopening hclosing (ihcondition d') (ihbody d')
  | group hopening hclosing _ ih => exact fun d' => .group hopening hclosing (ih d')
  | conditional hopening _ _ ihcondition ihbody =>
      exact fun d' => .conditional hopening (ihcondition d') (ihbody d')
  | endif ht => exact fun _ => .endif ht
  | otherwise ht hclosing _ ih => exact fun d' => .otherwise ht hclosing (ih d')
  | elif ht _ _ ihfirst ihothers => exact fun d' => .elif ht (ihfirst d') (ihothers d')
  | endswitch ht => exact fun _ => .endswitch ht
  | default ht hcolon hclosing _ ih => exact fun d' => .default ht hcolon hclosing (ih d')
  | case ht hcolon _ _ _ ihguard ihbody ihothers =>
      exact fun d' => .case ht hcolon (ihguard d') (ihbody d') (ihothers d')
  | nil => exact fun _ => .nil
  | cons hsign _ _ ihfirst ihothers => exact fun d' => .cons hsign (ihfirst d') (ihothers d')

/-- The tokens have a reading when nesting has no limit. -/
def Readable (s : Symbol) (ts : List Token) : Prop :=
  ∃ tree : s.Tree, Reads 0 0 s tree ts

theorem Reads.readable {d : Nat} {s : Symbol} {tree : s.Tree} {ts : List Token}
    (h : Reads 0 d s tree ts) : Readable s ts :=
  ⟨tree, h.any_depth 0⟩

/-! ## Joining what was taken apart -/

/-- A phrase stays a phrase of its kind with these tokens behind it. -/
def Extends (p : Phrase) (suffix : List Token) : Prop :=
  ∀ ts, Readable (.phrase p) ts → Readable (.phrase p) (ts ++ suffix)

/-- A chain ends with an operand. -/
theorem Extends.chain {level : Level} {suffix : List Token} (hlevel : level ≠ .power)
    (h : Extends level.first suffix) : Extends (.chain level) suffix := by
  rintro ts ⟨e, hreads⟩
  cases hreads with
  | first hfirst =>
      rcases h _ hfirst.readable with ⟨e', hfirst'⟩
      exact ⟨e', .first hfirst'⟩
  | joined _ hop hleft hright =>
      rcases h _ hright.readable with ⟨e', hright'⟩
      rw [List.append_assoc, List.cons_append]
      exact ⟨_, .joined hlevel hop hleft hright'⟩
  | raised => exact absurd rfl hlevel

theorem Extends.negation {suffix : List Token} (h : Extends (.chain .comparison) suffix) :
    Extends .negation suffix := by
  -- Readings are an indexed family, so that the induction is over all parts of the grammar.
  have hrun : ∀ {d s} {tree : s.Tree} {ts}, Reads 0 d s tree ts → s = .phrase .negation →
      Readable (.phrase .negation) (ts ++ suffix) := by
    intro d s tree ts hreads
    induction hreads with
    | negated _ hop _ ih =>
        intro _
        rcases ih rfl with ⟨e, hreads⟩
        exact ⟨_, .negated (fits_zero 0) hop (hreads.any_depth _)⟩
    | compared hcompared _ =>
        intro _
        rcases h _ hcompared.readable with ⟨e, hreads⟩
        exact ⟨e, .compared hreads⟩
    | _ =>
        intro heq
        cases heq
  rintro ts ⟨e, hreads⟩
  exact hrun hreads rfl

theorem Extends.statement {suffix : List Token} (h : Extends (.chain .logic) suffix) :
    Extends .statement suffix := by
  have hrun : ∀ {d s} {tree : s.Tree} {ts}, Reads 0 d s tree ts → s = .phrase .statement →
      Readable (.phrase .statement) (ts ++ suffix) := by
    intro d s tree ts hreads
    induction hreads with
    | declare _ hv hname hequals _ ih =>
        intro _
        rcases ih rfl with ⟨e, hreads⟩
        exact ⟨_, .declare (fits_zero 0) hv hname hequals (hreads.any_depth _)⟩
    | assign _ hname hequals _ ih =>
        intro _
        rcases ih rfl with ⟨e, hreads⟩
        exact ⟨_, .assign (fits_zero 0) hname hequals (hreads.any_depth _)⟩
    | expression _ hlogic _ =>
        intro _
        rcases h _ hlogic.readable with ⟨e, hreads⟩
        exact ⟨e, .expression (fits_zero 0) (hreads.any_depth _)⟩
    | _ =>
        intro heq
        cases heq
  rintro ts ⟨e, hreads⟩
  exact hrun hreads rfl

/-- A power behind a factor is taken into the last exponent of the factor. -/
theorem readable_factor_raised {ts us : List Token} {op : Token} (hop : op.kind = .pow)
    (hts : Readable (.phrase .factor) ts) (hus : Readable (.phrase .factor) us) :
    Readable (.phrase .factor) (ts ++ op :: us) := by
  rcases hus with ⟨right, hright⟩
  -- Factors and powers go through each other, so both are shown in one induction.
  have hrun : ∀ {d s} {tree : s.Tree} {ts}, Reads 0 d s tree ts →
      (s = .phrase .factor → Readable (.phrase .factor) (ts ++ op :: us)) ∧
      (s = .phrase (.chain .power) → Readable (.phrase (.chain .power)) (ts ++ op :: us)) := by
    intro d s tree ts hreads
    induction hreads with
    | @first _ level _ _ h _ =>
        refine ⟨by simp, ?_⟩
        intro heq
        cases heq
        exact ⟨_, .raised hop (Reads.any_depth h 0) hright⟩
    | raised hop' hbase _ _ ih =>
        refine ⟨by simp, ?_⟩
        intro _
        rcases ih.1 rfl with ⟨e, hexponent⟩
        rw [List.append_assoc, List.cons_append]
        exact ⟨_, .raised hop' (hbase.any_depth 0) hexponent⟩
    | joined hlevel =>
        refine ⟨by simp, ?_⟩
        intro heq
        cases heq
        exact absurd rfl hlevel
    | signed _ hsign _ ih =>
        refine ⟨?_, by simp⟩
        intro _
        rcases ih.1 rfl with ⟨e, hreads⟩
        exact ⟨_, .signed (fits_zero 0) hsign (hreads.any_depth _)⟩
    | unsigned _ ih =>
        refine ⟨?_, by simp⟩
        intro _
        rcases ih.2 rfl with ⟨e, hreads⟩
        exact ⟨e, .unsigned hreads⟩
    | _ => exact ⟨by simp, by simp⟩
  rcases hts with ⟨e, hreads⟩
  exact (hrun hreads).1 rfl

/-- The tokens begin with a sign. -/
def BeginsSigned (ts : List Token) : Prop :=
  ∃ op us, ts = op :: us ∧ op.isSign

theorem Reads.beginsSigned_of_append {limit d : Nat} {p : Phrase} {e : Expr} {ts us : List Token}
    (h : Reads limit d (.phrase p) e ts) (hsigned : BeginsSigned (ts ++ us)) : BeginsSigned ts := by
  rcases h.exists_head p rfl with ⟨t, more, rfl, -⟩
  rcases hsigned with ⟨op, vs, heq, hop⟩
  rw [← (List.cons.inj heq).1] at hop
  exact ⟨t, more, rfl, hop⟩

/-- A term that begins with a sign is a term without it. -/
theorem Reads.readable_unsigned_term {d : Nat} {s : Symbol} {tree : s.Tree} {ts : List Token}
    (h : Reads 0 d s tree ts) (hs : s = .phrase (.chain .product)) (hsigned : BeginsSigned ts) :
    ∃ op us, ts = op :: us ∧ op.isSign ∧ Readable (.phrase (.chain .product)) us := by
  -- The sign is that of the first factor of the term.
  induction h with
  | first h _ =>
      cases hs
      cases h with
      | signed _ hop hfactor => exact ⟨_, _, rfl, hop, _, .first (hfactor.any_depth 0)⟩
      | unsigned hpower =>
          rcases hpower.exists_head _ rfl with ⟨t, us, rfl, ht⟩
          rcases hsigned with ⟨op, vs, heq, hop⟩
          rw [← (List.cons.inj heq).1, Token.OpensAtom.isSign_eq_false ht] at hop
          cases hop
  | joined hlevel hop hleft hright ihleft _ =>
      cases hs
      rcases ihleft rfl (hleft.beginsSigned_of_append hsigned) with
        ⟨sign, us, rfl, hsign, e, hreads⟩
      exact ⟨sign, _, rfl, hsign, _, .joined hlevel hop hreads (hright.any_depth 0)⟩
  | _ => cases hs

/-- Behind a phrase that takes sums, a phrase of the same kind that begins with a sign goes on with
its last sum. -/
theorem Reads.extends_of_beginsSigned {d : Nat} {s : Symbol} {tree : s.Tree} {ts : List Token}
    (h : Reads 0 d s tree ts) (hsigned : BeginsSigned ts) :
    ∀ p, s = .phrase p → Level.sum.rank ≤ p.rank → Extends p ts := by
  have hword : ∀ {t : Token} {us : List Token} {word : String}, BeginsSigned (t :: us) →
      t.isKeyword word = false := by
    rintro t us word ⟨op, vs, heq, hop⟩
    rw [← (List.cons.inj heq).1] at hop
    refine Parser.isKeyword_eq_false_of_kind ?_
    rcases Token.isSign_iff.1 hop with hkind | hkind <;> simp [hkind]
  induction h with
  | declare _ hv _ _ _ _ => simp [hword hsigned] at hv
  | assign _ hname _ _ _ =>
      rcases hsigned with ⟨op, vs, heq, hop⟩
      rw [← (List.cons.inj heq).1] at hop
      simp [Token.isSign, hname] at hop
  | expression _ _ ih =>
      rintro _ ⟨rfl⟩ _
      exact (ih hsigned _ rfl (by decide)).statement
  | @first _ level _ _ h ih =>
      rintro _ ⟨rfl⟩ hrank
      cases level with
      | logic => exact Extends.chain (by decide) (ih hsigned .negation rfl (by decide))
      | comparison => exact Extends.chain (by decide) (ih hsigned (.chain .sum) rfl (by decide))
      | sum =>
          -- The sign becomes the operator between the sum before and the term behind it.
          rcases h.readable_unsigned_term rfl hsigned with ⟨op, us, rfl, hop, e, hterm⟩
          rintro before ⟨left, hleft⟩
          have hjoins : Joins .sum op := by
            refine .sum ?_
            rcases Token.isSign_iff.1 hop with hkind | hkind <;> simp [hkind]
          exact ⟨_, .joined (by decide) hjoins hleft hterm⟩
      | product | power => exact absurd hrank (by decide)
  | joined hlevel hop hleft hright ihleft _ =>
      rintro _ ⟨rfl⟩ hrank before hbefore
      rcases ihleft (hleft.beginsSigned_of_append hsigned) _ rfl hrank before hbefore with
        ⟨left, hreads⟩
      rw [← List.append_assoc]
      exact ⟨_, .joined hlevel hop hreads (hright.any_depth 0)⟩
  | negated _ hop _ _ => simp [hword hsigned] at hop
  | compared _ ih =>
      rintro _ ⟨rfl⟩ _
      exact (ih hsigned _ rfl (by decide)).negation
  | _ =>
      rintro _ ⟨rfl⟩ hrank <;> exact absurd hrank (by decide)

/-- Statements behind a statement: where they begin with a sign, the first goes on with it. -/
theorem Readable.cons {ts us : List Token} (hts : Readable (.phrase .statement) ts)
    (hus : Readable .statements us) : Readable .statements (ts ++ us) := by
  rcases hts with ⟨e, hfirst⟩
  rcases hus with ⟨es, hothers⟩
  by_cases hsign : ∀ t ∈ us.head?, t.isSign = false
  · exact ⟨e :: es, .cons hsign hfirst hothers⟩
  · cases hothers with
    | nil => simp at hsign
    | @cons _ _ _ vs ws hsign' hsecond hmore =>
        have hsigned : BeginsSigned (vs ++ ws) := by
          cases hlist : vs ++ ws with
          | nil => simp [hlist] at hsign
          | cons op rest => exact ⟨op, rest, rfl, by simpa [hlist] using hsign⟩
        -- The sign belongs to the statement behind, and makes all of it go on with the one before.
        have hvs := hsecond.beginsSigned_of_append hsigned
        rcases hsecond.extends_of_beginsSigned hvs _ rfl (by decide) _ ⟨e, hfirst⟩ with
          ⟨e', hboth⟩
        rw [← List.append_assoc]
        exact ⟨_, .cons hsign' hboth hmore⟩

/-! ## From derivations to readings -/

/-- What has a derivation has a reading, once all its literals are numbers. -/
theorem readable_of_derives {value : Token → Number → Prop} {s : Symbol} {tree : s.Tree}
    {ts : List Token} (h : Derives value s tree ts)
    (hnumbers : ∀ t ∈ ts, t.IsNumeral → ∃ n, t.Denotes n) : Readable s ts := by
  -- The parts are put together as they were derived; only towers of powers and lists of statements
  -- may have to be taken apart in another way.
  induction h with
  | declare hv hname hequals _ ih =>
      rcases ih fun t ht => hnumbers t (by simp [ht]) with ⟨e, hreads⟩
      exact ⟨_, .declare (fits_zero 0) hv hname hequals (hreads.any_depth 1)⟩
  | assign hname hequals _ ih =>
      rcases ih fun t ht => hnumbers t (by simp [ht]) with ⟨e, hreads⟩
      exact ⟨_, .assign (fits_zero 0) hname hequals (hreads.any_depth 1)⟩
  | expression _ ih =>
      rcases ih hnumbers with ⟨e, hreads⟩
      exact ⟨_, .expression (fits_zero 0) (hreads.any_depth 1)⟩
  | first _ ih =>
      rcases ih hnumbers with ⟨e, hreads⟩
      exact ⟨_, .first hreads⟩
  | @joined level op _ _ ts us hop _ _ ihleft ihright =>
      rcases ihleft fun t ht => hnumbers t (by simp [ht]) with ⟨left, hleft⟩
      rcases ihright fun t ht => hnumbers t (by simp [ht]) with ⟨right, hright⟩
      by_cases hlevel : level = .power
      · subst hlevel
        cases hop with
        | power hpow =>
            cases hleft with
            | first hbase => exact ⟨_, .raised hpow hbase hright⟩
            -- The base has an exponent already, so the new one goes to its end.
            | raised hpow' hbase hexponent =>
                rcases readable_factor_raised hpow ⟨_, hexponent⟩ ⟨_, hright⟩ with ⟨e, hreads⟩
                rw [List.append_assoc, List.cons_append]
                exact ⟨_, .raised hpow' hbase hreads⟩
            | joined hne => exact absurd rfl hne
      · rw [Level.later_eq_first hlevel] at hright
        exact ⟨_, .joined hlevel hop hleft hright⟩
  | negated hop _ ih =>
      rcases ih fun t ht => hnumbers t (by simp [ht]) with ⟨e, hreads⟩
      exact ⟨_, .negated (fits_zero 0) hop (hreads.any_depth 1)⟩
  | compared _ ih =>
      rcases ih hnumbers with ⟨e, hreads⟩
      exact ⟨_, .compared hreads⟩
  | signed hop _ ih =>
      rcases ih fun t ht => hnumbers t (by simp [ht]) with ⟨e, hreads⟩
      exact ⟨_, .signed (fits_zero 0) (Token.isSign_iff.2 hop) (hreads.any_depth 1)⟩
  | unsigned _ ih =>
      rcases ih hnumbers with ⟨e, hreads⟩
      exact ⟨_, .unsigned hreads⟩
  | number ht _ =>
      rcases hnumbers _ (by simp) ht with ⟨n, hn⟩
      exact ⟨_, .number ht hn⟩
  | named ht => exact ⟨_, .named ht⟩
  | grouped _ ih =>
      rcases ih hnumbers with ⟨e, hreads⟩
      exact ⟨_, .grouped hreads⟩
  | choose ht _ _ ihfirst ihothers =>
      rcases ihfirst fun t ht => hnumbers t (by simp [ht]) with ⟨⟨condition, body⟩, hfirst⟩
      rcases ihothers fun t ht => hnumbers t (by simp [ht]) with ⟨arms, hothers⟩
      exact ⟨_, .choose ht hfirst hothers⟩
  | select ht _ _ ihsubject iharms =>
      rcases ihsubject fun t ht => hnumbers t (by simp [ht]) with ⟨subject, hsubject⟩
      rcases iharms fun t ht => hnumbers t (by simp [ht]) with ⟨arms, harms⟩
      exact ⟨_, .select ht hsubject harms⟩
  | loop ht hopening hclosing _ _ ihcondition ihbody =>
      rcases ihcondition fun t ht => hnumbers t (by simp [ht]) with ⟨condition, hcondition⟩
      rcases ihbody fun t ht => hnumbers t (by simp [ht]) with ⟨body, hbody⟩
      exact ⟨_, .loop ht hopening hclosing hcondition hbody⟩
  | group hopening hclosing _ ih =>
      rcases ih fun t ht => hnumbers t (by simp [ht]) with ⟨e, hreads⟩
      exact ⟨_, .group hopening hclosing hreads⟩
  | conditional hopening _ _ ihcondition ihbody =>
      rcases ihcondition fun t ht => hnumbers t (by simp [ht]) with ⟨condition, hcondition⟩
      rcases ihbody fun t ht => hnumbers t (by simp [ht]) with ⟨body, hbody⟩
      exact ⟨_, .conditional hopening hcondition hbody⟩
  | endif ht => exact ⟨_, .endif ht⟩
  | otherwise ht hclosing _ ih =>
      rcases ih fun t ht => hnumbers t (by simp [ht]) with ⟨e, hreads⟩
      exact ⟨_, .otherwise ht hclosing hreads⟩
  | elif ht _ _ ihfirst ihothers =>
      rcases ihfirst fun t ht => hnumbers t (by simp [ht]) with ⟨⟨condition, body⟩, hfirst⟩
      rcases ihothers fun t ht => hnumbers t (by simp [ht]) with ⟨arms, hothers⟩
      exact ⟨_, .elif ht hfirst hothers⟩
  | endswitch ht => exact ⟨_, .endswitch ht⟩
  | default ht hcolon hclosing _ ih =>
      rcases ih fun t ht => hnumbers t (by simp [ht]) with ⟨e, hreads⟩
      exact ⟨_, .default ht hcolon hclosing hreads⟩
  | case ht hcolon _ _ _ ihguard ihbody ihothers =>
      rcases ihguard fun t ht => hnumbers t (by simp [ht]) with ⟨guard, hguard⟩
      rcases ihbody fun t ht => hnumbers t (by simp [ht]) with ⟨body, hbody⟩
      rcases ihothers fun t ht => hnumbers t (by simp [ht]) with ⟨arms, hothers⟩
      exact ⟨_, .case ht hcolon hguard hbody hothers⟩
  | nil => exact ⟨_, .nil⟩
  | cons _ _ ihfirst ihothers =>
      exact (ihfirst fun t ht => hnumbers t (by simp [ht])).cons
        (ihothers fun t ht => hnumbers t (by simp [ht]))

/-- Every literal among the tokens of a derivation has a number. -/
theorem Derives.exists_value {value : Token → Number → Prop} {s : Symbol} {tree : s.Tree}
    {ts : List Token} (h : Derives value s tree ts) :
    ∀ t ∈ ts, t.IsNumeral → ∃ n, value t n := by
  have hkind : ∀ {t : Token}, t.kind ≠ .int ∧ t.kind ≠ .float → t.IsNumeral → ∃ n, value t n := by
    intro t hne hnumeral
    exact (hnumeral.elim hne.1 hne.2).elim
  have hkeyword : ∀ {t : Token} {word : String}, t.isKeyword word → t.IsNumeral →
      ∃ n, value t n := by
    intro t word hword
    exact hkind (by simp [(Parser.isKeyword_iff.1 hword).1])
  have hjoins : ∀ {level : Level} {t : Token}, Joins level t → t.IsNumeral → ∃ n, value t n := by
    intro level t hop
    cases hop with
    | logic h => exact h.elim hkeyword hkeyword
    | comparison h | sum h | product h =>
        exact hkind ⟨fun hint => by simp [hint] at h, fun hfloat => by simp [hfloat] at h⟩
    | power h => exact hkind (by simp [h])
  -- All other tokens are words, operators and punctuation.
  induction h with
  | declare hv hname hequals _ ih =>
      simp only [List.forall_mem_cons]
      exact ⟨hkeyword hv, hkind (by simp [hname]), hkind (by simp [hequals]), ih⟩
  | assign hname hequals _ ih =>
      simp only [List.forall_mem_cons]
      exact ⟨hkind (by simp [hname]), hkind (by simp [hequals]), ih⟩
  | expression _ ih | first _ ih | compared _ ih | unsigned _ ih | grouped _ ih => exact ih
  | joined hop _ _ ihleft ihright =>
      simp only [List.forall_mem_append, List.forall_mem_cons]
      exact ⟨ihleft, hjoins hop, ihright⟩
  | negated hop _ ih =>
      simp only [List.forall_mem_cons]
      exact ⟨hkeyword hop, ih⟩
  | signed hop _ ih =>
      simp only [List.forall_mem_cons]
      exact ⟨hop.elim (fun h => hkind (by simp [h])) fun h => hkind (by simp [h]), ih⟩
  | number _ hn =>
      simp only [List.forall_mem_singleton]
      exact fun _ => ⟨_, hn⟩
  | named ht =>
      simp only [List.forall_mem_singleton]
      exact hkind (by simp [ht])
  | choose ht _ _ ihfirst ihothers
  | elif ht _ _ ihfirst ihothers
  | select ht _ _ ihfirst ihothers =>
      simp only [List.cons_append, List.forall_mem_append, List.forall_mem_cons]
      exact ⟨hkeyword ht, ihfirst, ihothers⟩
  | loop ht hopening hclosing _ _ ihcondition ihbody =>
      simp only [List.cons_append, List.forall_mem_append, List.forall_mem_cons]
      exact ⟨hkeyword ht, ⟨ihcondition, hkeyword hopening, ihbody⟩, hkeyword hclosing, by simp⟩
  | group hopening hclosing _ ih =>
      simp only [List.cons_append, List.forall_mem_append, List.forall_mem_cons]
      exact ⟨hkind (by simp [hopening]), ih, hkind (by simp [hclosing]), by simp⟩
  | conditional hopening _ _ ihcondition ihbody =>
      simp only [List.forall_mem_append, List.forall_mem_cons]
      exact ⟨ihcondition, hkeyword hopening, ihbody⟩
  | endif ht | endswitch ht =>
      simp only [List.forall_mem_singleton]
      exact hkeyword ht
  | otherwise ht hclosing _ ih =>
      simp only [List.cons_append, List.forall_mem_append, List.forall_mem_cons]
      exact ⟨hkeyword ht, ih, hkeyword hclosing, by simp⟩
  | default ht hcolon hclosing _ ih =>
      simp only [List.cons_append, List.forall_mem_append, List.forall_mem_cons]
      exact ⟨hkeyword ht, hkind (by simp [hcolon]), ih, hkeyword hclosing, by simp⟩
  | case ht hcolon _ _ _ ihguard ihbody ihothers =>
      simp only [List.cons_append, List.forall_mem_append, List.forall_mem_cons]
      exact ⟨hkeyword ht, ⟨ihguard, hkind (by simp [hcolon]), ihbody⟩, ihothers⟩
  | nil => simp
  | cons _ _ ihfirst ihothers =>
      simp only [List.forall_mem_append]
      exact ⟨ihfirst, ihothers⟩

/-! ## The parser and the grammar -/

/-- A derivation of statements is one derivation for each of them. -/
theorem Derives.exists_parts {value : Token → Number → Prop} {es : List Expr} {ts : List Token}
    (h : Derives value .statements es ts) :
    ∃ parts, List.Forall₂ (Derives value (.phrase .statement)) es parts ∧ parts.flatten = ts := by
  induction es generalizing ts with
  | nil =>
      cases h
      exact ⟨[], .nil, rfl⟩
  | cons e es ih =>
      cases h with
      | cons hfirst hothers =>
          rcases ih hothers with ⟨parts, hparts, rfl⟩
          exact ⟨_ :: parts, .cons hfirst hparts, rfl⟩

theorem Program.ofTokens_concat {limit : Nat} {ts : List Token} {stop : Token}
    (hstop : stop.kind = .eof) :
    Program.ofTokens limit (ts ++ [stop]) = Parser.program ⟨limit, stop⟩ ts := by
  simp [Program.ofTokens, endToken, innerTokens, hstop]

/-- A source is parsed as a program when it splits into pieces whose tokens read as it. -/
theorem Program.ofSource_eq_ok_iff {limit : Nat} {source : List Char} {program : Program} :
    Program.ofSource limit source = .ok program ↔
      ∃ segments, Splits source segments [] ∧
        Reads limit 0 .statements program (Segment.tokensFrom .start segments) := by
  constructor
  · intro h
    cases hscan : Token.scan source with
    | error fault => simp [Program.ofSource, hscan, bind, Except.bind] at h
    | ok tokens =>
        -- Both sides come to a reading of the tokens of the pieces.
        obtain ⟨segments, hsplits, rfl⟩ := Token.scan_eq_ok_iff.1 hscan
        rw [Program.ofSource, hscan] at h
        refine ⟨segments, hsplits, ?_⟩
        exact Parser.reads_of_program (hsplits.kind_ne_eof _) ((ofTokens_concat rfl).symm.trans h)
  · rintro ⟨segments, hsplits, hreads⟩
    rw [Program.ofSource, Token.scan_of_splits hsplits]
    exact (ofTokens_concat rfl).trans (Parser.program_of_reads hreads)

/-- The parser accepts exactly what the grammar derives, where all literals are numbers; its trees
are the trees of derivations, and these together write all the tokens in order. -/
theorem Program.ofTokens_isOk_iff_derives {ts : List Token} {stop : Token}
    (hstop : stop.kind = .eof) (hts : ∀ t ∈ ts, t.kind ≠ .eof) :
    ((∃ program, Program.ofTokens 0 (ts ++ [stop]) = .ok program) ↔
      (∃ program, Derives (fun _ _ => True) .statements program ts) ∧
        ∀ t ∈ ts, t.IsNumeral → ∃ n, t.Denotes n) ∧
    ∀ program, Program.ofTokens 0 (ts ++ [stop]) = .ok program →
      ∃ parts, List.Forall₂ (Derives Token.Denotes (.phrase .statement)) program parts ∧
        parts.flatten = ts := by
  rw [Program.ofTokens_concat hstop]
  have hderives : ∀ program, Parser.program ⟨0, stop⟩ ts = .ok program →
      Derives Token.Denotes .statements program ts := by
    intro program h
    exact (Parser.reads_of_program hts h).derives fun _ _ hn => hn
  -- What is parsed has a reading, and a reading is a derivation; the other way round the reading is
  -- found first, and it may have another tree.
  refine ⟨⟨?_, ?_⟩, ?_⟩
  · rintro ⟨program, h⟩
    exact ⟨⟨program, (Parser.reads_of_program hts h).derives fun _ _ _ => trivial⟩,
      (hderives program h).exists_value⟩
  · rintro ⟨⟨program, h⟩, hnumbers⟩
    rcases readable_of_derives h hnumbers with ⟨program', hreads⟩
    exact ⟨program', Parser.program_of_reads hreads⟩
  · intro program h
    exact (hderives program h).exists_parts

/-- A name and a signed number derive as two statements; the parser takes them as one. -/
theorem Program.ofTokens_isOk_of_two_statements :
    let name : Token := ⟨.identifier, "x", ⟨1, 1⟩⟩
    let sign : Token := ⟨.minus, "-", ⟨1, 3⟩⟩
    let one : Token := ⟨.int, "1", ⟨1, 5⟩⟩
    let stop : Token := ⟨.eof, "", ⟨1, 6⟩⟩
    stop.kind = .eof ∧ (∀ t ∈ [name, sign, one], t.kind ≠ .eof) ∧
      Derives (fun _ _ => True) .statements
        [.var "x" ⟨1, 1⟩, .unary sign.operator (.num (.int 1) ⟨1, 5⟩)] [name, sign, one] ∧
      ∃ program, Program.ofTokens 0 ([name, sign, one] ++ [stop]) = .ok program := by
  intro name sign one stop
  have hkinds : ∀ t ∈ [name, sign, one], t.kind ≠ .eof := by decide
  have hname : Derives (fun _ _ => True) (.phrase .atom) (.var "x" ⟨1, 1⟩) [name] :=
    @Derives.named _ name rfl
  have hfirst : Derives (fun _ _ => True) (.phrase .statement) (.var "x" ⟨1, 1⟩) [name] :=
    .expression (.first (.compared (.first (.first (.first (.unsigned (.first hname)))))))
  have hone : Derives (fun _ _ => True) (.phrase .atom) (.num (.int 1) ⟨1, 5⟩) [one] :=
    @Derives.number _ one _ (.inl rfl) trivial
  have hsecond : Derives (fun _ _ => True) (.phrase .statement)
      (.unary sign.operator (.num (.int 1) ⟨1, 5⟩)) [sign, one] :=
    .expression (.first (.compared (.first (.first (.first
      (.signed (.inr rfl) (.unsigned (.first hone))))))))
  have hderives : Derives (fun _ _ => True) .statements
      [.var "x" ⟨1, 1⟩, .unary sign.operator (.num (.int 1) ⟨1, 5⟩)] [name, sign, one] :=
    .cons hfirst (.cons hsecond .nil)
  have hread : readInt "1" = .ok 1 := rfl
  refine ⟨rfl, hkinds, hderives, ?_⟩
  refine (Program.ofTokens_isOk_iff_derives rfl hkinds).1.2 ⟨⟨_, hderives⟩, ?_⟩
  simp only [List.forall_mem_cons]
  refine ⟨?_, ?_, fun _ => ⟨.int 1, .int rfl hread⟩, by simp⟩
  · rintro (h | h) <;> cases h
  · rintro (h | h) <;> cases h

end Reckoner
