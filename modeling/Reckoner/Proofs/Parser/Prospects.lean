import Reckoner.Proofs.Parser.Language
import Reckoner.Proofs.Parser.Lookahead

/-!
# What may follow where the parser fails

No production takes a token before all that was taken can still be completed. So where the grammar
fails, the tokens in front begin some derivation; only a request to exit, which is no part of the
grammar, may have been begun instead.

* `Viable` — the tokens begin a derivation;
* `Pending` — a request to exit is begun, and the next token does not go on with it;
* `Local.part`, `Local.phrase` — the rules for a part of the grammar within another;
* `phrase_local` — all phrases look no further than one token ahead, and fail behind such tokens;
* `program_local` — and with them whole programs.
-/

namespace Reckoner.Parser

/-! ## Beginnings of derivations -/

/-- The tokens begin a derivation. -/
def Viable (s : Symbol) (taken : List Token) : Prop :=
  ∃ (more : List Token) (tree : s.Tree), Derives Token.Denotes s tree (taken ++ more)

/-- The tokens end within a request to exit, and the next token does not go on with it. -/
def Pending (taken : List Token) (t : Token) : Prop :=
  ∃ before exit, exit.isKeyword "exit" ∧
    ((taken = before ++ [exit] ∧ t.kind ≠ .openParen) ∨
      ∃ opening, opening.kind = .openParen ∧ taken = before ++ [exit, opening] ∧
        t.kind ≠ .closeParen)

/-- What holds where the grammar fails behind tokens that were taken for a part of it. -/
def Prospect (s : Symbol) (taken : List Token) (t : Token) : Prop :=
  Viable s taken ∨ Pending taken t

theorem Viable.of_derives {s : Symbol} {tree : s.Tree} {taken ts : List Token} (more : List Token)
    (h : Derives Token.Denotes s tree ts) (hts : ts = taken ++ more) : Viable s taken :=
  ⟨more, tree, hts ▸ h⟩

theorem Viable.of_append {s : Symbol} {taken more : List Token} (h : Viable s (taken ++ more)) :
    Viable s taken := by
  obtain ⟨rest, tree, hderives⟩ := h
  exact .of_derives (more ++ rest) hderives (List.append_assoc ..)

theorem Pending.append {taken : List Token} {t : Token} (h : Pending taken t)
    (front : List Token) : Pending (front ++ taken) t := by
  obtain ⟨before, exit, hexit, ⟨rfl, hkind⟩ | ⟨opening, hopening, rfl, hkind⟩⟩ := h
  · exact ⟨front ++ before, exit, hexit, .inl ⟨(List.append_assoc ..).symm, hkind⟩⟩
  · exact ⟨front ++ before, exit, hexit,
      .inr ⟨opening, hopening, (List.append_assoc ..).symm, hkind⟩⟩

/-- A part of the grammar that stands in another behind the tokens `front`. -/
theorem Prospect.inside {s s' : Symbol} {all : List Token → List Token} {taken : List Token}
    {t : Token} (h : Prospect s taken t) (front : List Token) (hall : ∀ ts, all ts = front ++ ts)
    (hviable : ∀ (tree : s.Tree) ts, Derives Token.Denotes s tree ts → Viable s' (all ts)) :
    Prospect s' (all taken) t := by
  rcases h with ⟨more, tree, hderives⟩ | hpending
  · have hmore := hviable tree _ hderives
    rw [hall, ← List.append_assoc, ← hall] at hmore
    exact .inl hmore.of_append
  · exact .inr (hall taken ▸ hpending.append front)

/-! ## Tokens to go on with -/

/-- Some token of a kind. -/
def tokenOf (kind : Kind) : Token :=
  ⟨kind, "", .nowhere⟩

/-- Some token that is a keyword. -/
def wordOf (word : String) : Token :=
  ⟨.keyword, word, .nowhere⟩

theorem tokenOf_kind (kind : Kind) : (tokenOf kind).kind = kind :=
  rfl

theorem wordOf_isKeyword (word : String) : (wordOf word).isKeyword word := by
  simp [wordOf, Token.isKeyword, Token.is]

/-- A name is a phrase of every kind but a group. -/
theorem derives_name {t : Token} (ht : t.kind = .identifier) :
    Derives Token.Denotes (.phrase (.chain .logic)) (.var t.literal t.pos) [t] :=
  .first (.compared (.first (.first (.first (.unsigned (.first (.named ht)))))))

theorem kind_ne_eof_of_isKeyword {t : Token} {word : String} (h : t.isKeyword word) :
    t.kind ≠ .eof :=
  fun heof => not_isKeyword_of_eof heof word h

/-- The shortest statement. -/
theorem derives_statement :
    Derives Token.Denotes (.phrase .statement) (.var "" .nowhere) [tokenOf .identifier] :=
  .expression (derives_name (tokenOf_kind .identifier))

theorem viable_group : Viable (.phrase .group) [] :=
  .of_derives _ (.group (tokenOf_kind .openParen) (tokenOf_kind .closeParen) derives_statement) rfl

theorem viable_atom : Viable (.phrase .atom) [] :=
  .of_derives _ (.named (tokenOf_kind .identifier)) rfl

/-! ## What was taken -/

variable {r : Rules} {d n : Nat} {ts taken mid : List Token}

theorem derives_of_plain {p : Phrase} {e : Expr} (h : plain p d r ts = .ok (e, mid))
    (hts : ts = taken ++ mid) : Derives Token.Denotes (.phrase p) e taken := by
  obtain ⟨read, hread, hreads, -⟩ := sound p ts d e mid (yields_of_bare h)
  obtain rfl : taken = read := (List.append_left_inj mid).1 (hts.symm.trans hread)
  exact hreads.derives fun _ _ hn => hn

theorem derives_of_plainConditional {v : Expr × Expr} (h : plainConditional d r ts = .ok (v, mid))
    (hts : ts = taken ++ mid) : Derives Token.Denotes .conditional v taken := by
  obtain ⟨read, hread, hreads⟩ := conditional_sound (fun p ts _ => sound p ts)
    (Nat.lt_succ_self ts.length) (yields_of_bare h)
  obtain rfl : taken = read := (List.append_left_inj mid).1 (hts.symm.trans hread)
  exact hreads.derives fun _ _ hn => hn

theorem plainConditional_shorter {v : Expr × Expr} (h : plainConditional d r ts = .ok (v, mid)) :
    mid.length < ts.length :=
  (yields_of_bare h).shorter

/-! ## Phrases -/

/-- The phrase looks no further than one token behind those it takes. -/
abbrev LocalPhrase (r : Rules) (p : Phrase) (d : Nat) (ts : List Token) : Prop :=
  Local (Prospect (.phrase p)) Expr.mapPos (plain p d) (fun _ => plain p d) r ts

/-- All phrases do so on fewer tokens. -/
def LocalBelow (r : Rules) (n : Nat) : Prop :=
  ∀ p d (ts : List Token), ts.length < n → LocalPhrase r p d ts

theorem LocalBelow.mono {n m : Nat} (h : LocalBelow r n) (hle : m ≤ n) : LocalBelow r m :=
  fun p d ts hts => h p d ts (Nat.lt_of_lt_of_le hts hle)

/-- The outcome of a parse with every place moved. -/
def movedProgram (f : Position → Position) : Except Fault Program → Except Fault Program
  | .ok es => .ok (es.map (Expr.mapPos f))
  | .error fault => .error (fault.mapPos f)

/-! ### Parts -/

section Parts

variable {α : Type} {s : Symbol} {all : List Token → List Token}
  {move : (Position → Position) → α → α}

/-- A part of the grammar, behind the tokens `front` that were taken for another. -/
theorem Local.part (part : Symbol) {x : Plain part.Tree}
    {y : (Position → Position) → Plain part.Tree}
    {movePart : (Position → Position) → part.Tree → part.Tree} {k : part.Tree → Plain α}
    {k' : (Position → Position) → part.Tree → Plain α}
    (hx : Local (Prospect part) movePart x y r ts) (front : List Token)
    (hall : ∀ ts, all ts = front ++ ts)
    (hviable : ∀ (tree : part.Tree) ts, Derives Token.Denotes part tree ts → Viable s (all ts))
    (hk : ∀ tree taken mid, x r ts = .ok (tree, mid) → ts = taken ++ mid →
      Local (fun more t => Prospect s (all (taken ++ more)) t) move (k tree)
        (fun f => k' f (movePart f tree)) r mid) :
    Local (fun taken t => Prospect s (all taken) t) move (x >>= k) (fun f => y f >>= k' f) r ts :=
  (hx.mono fun _ _ h => h.inside front hall hviable).bind hk

/-- A phrase, which leaves fewer tokens. -/
theorem Local.phrase {p : Phrase} {k : Expr → Plain α}
    {k' : (Position → Position) → Expr → Plain α} (hp : LocalPhrase r p d ts) (front : List Token)
    (hall : ∀ ts, all ts = front ++ ts)
    (hviable : ∀ e ts, Derives Token.Denotes (.phrase p) e ts → Viable s (all ts))
    (hk : ∀ e taken mid, Derives Token.Denotes (.phrase p) e taken → mid.length < ts.length →
      Local (fun more t => Prospect s (all (taken ++ more)) t) move (k e)
        (fun f => k' f (e.mapPos f)) r mid) :
    Local (fun taken t => Prospect s (all taken) t) move (plain p d >>= k)
      (fun f => plain p d >>= k' f) r ts := by
  refine .part (.phrase p) hp front hall hviable fun e taken mid hrun hmid => ?_
  exact hk e taken mid (derives_of_plain hrun hmid) (plain_shorter hrun)

end Parts

section Phrases

variable (hstop : r.stop.kind = .eof)

include hstop

/-! ### Groups, arms and bodies -/

theorem group_local (hbelow : LocalBelow r ts.length) : LocalPhrase r .group d ts := by
  refine .congr plain_group (fun _ _ _ _ => plain_group) ?_
  refine .expect hstop (.inl (.inl viable_group)) fun opening us hts hopening => ?_
  have hopening := beq_iff_eq.1 hopening
  have hus : us.length < ts.length := by simp [hts]
  refine .phrase (hbelow .statement d us hus) [opening] (fun _ => rfl) (fun e more he => ?_)
    fun inner taken mid hinner _ => ?_
  · exact .of_derives [tokenOf .closeParen] (.group hopening (tokenOf_kind _) he) (by simp)
  refine .expect hstop (.inl (.inl ?_)) fun closing vs _ _ => .pure inner
  exact .of_derives [tokenOf .closeParen] (.group hopening (tokenOf_kind _) hinner) (by simp)

theorem conditional_local (hbelow : LocalBelow r n) (hts : ts.length < n) :
    Local (Prospect .conditional) (fun f v => (v.1.mapPos f, v.2.mapPos f)) (plainConditional d)
      (fun _ => plainConditional d) r ts := by
  refine .congr plainConditional_eq (fun _ _ _ _ => plainConditional_eq) ?_
  have hthen := wordOf_isKeyword "then"
  refine .phrase (hbelow .group d ts hts) [] (fun _ => rfl) (fun e more he => ?_)
    fun condition taken mid hcondition hshorter => ?_
  · exact .of_derives [wordOf "then", tokenOf .identifier]
      (.conditional hthen he derives_statement) (by simp)
  refine .expect hstop (.inl (.inl ?_)) fun opening us hus hopening => ?_
  · exact .of_derives [wordOf "then", tokenOf .identifier]
      (.conditional hthen hcondition derives_statement) (by simp)
  have husShorter : us.length < n := by
    simp only [hus, List.length_cons] at hshorter
    omega
  refine .phrase (hbelow .statement d us husShorter) (taken ++ [opening]) (by simp)
    (fun e more he => ?_) fun body _ _ _ _ => .pure (condition, body)
  exact .of_derives [] (.conditional hopening hcondition he) (by simp)

theorem chooseArms_local (hbelow : LocalBelow r n) (hts : ts.length ≤ n) :
    Local (Prospect .chooseArms) Arms.mapPos (plainChooseArms d) (fun _ => plainChooseArms d)
      r ts := by
  have hendif := wordOf_isKeyword "endif"
  -- Each arm takes tokens, so the arms end with the tokens.
  induction hm : ts.length using Nat.strongRecOn generalizing ts with
  | ind m ih =>
      subst hm
      refine .congr (bare_chooseArms hstop ts _)
        (fun _ _ us hstop' => bare_chooseArms hstop' us _) ?_
      refine .current fun t ht => .ite (fun _ => Iff.rfl) (fun helif => ?_) fun _ => ?_
      · refine .skip hstop ht (kind_ne_eof_of_isKeyword helif) fun us hus => ?_
        subst hus
        simp only [List.length_cons] at hts ih
        refine .part .conditional (conditional_local hstop hbelow hts) [t] (fun _ => rfl)
          (fun v more hv => ?_) fun case taken mid hrun hmid => ?_
        · exact .of_derives [wordOf "endif"] (.elif helif hv (.endif hendif)) (by simp)
        have hcase := derives_of_plainConditional hrun hmid
        have hshorter := plainConditional_shorter hrun
        refine .part .chooseArms (ih mid.length (by omega) (by omega) rfl) (t :: taken) (by simp)
          (fun arms more harms => ?_) fun others _ _ _ _ => .pure (Arms.arm case.1 case.2 others)
        exact .of_derives [] (.elif helif hcase harms) (by simp)
      refine .ite (fun _ => Iff.rfl) (fun helse => ?_) fun _ => ?_
      · refine .skip hstop ht (kind_ne_eof_of_isKeyword helse) fun us hus => ?_
        subst hus
        refine .phrase (hbelow .statement d us hts) [t] (fun _ => rfl) (fun e more he => ?_)
          fun last taken mid hlast _ => ?_
        · exact .of_derives [wordOf "endif"] (.otherwise helse hendif he) (by simp)
        refine .expect hstop (.inl (.inl ?_)) fun _ _ _ _ => .pure (Arms.otherwise last)
        exact .of_derives [wordOf "endif"] (.otherwise helse hendif hlast) (by simp)
      · refine .expect hstop (.inl (.inl ?_)) fun _ _ _ _ => .pure Arms.none
        exact .of_derives _ (.endif hendif) rfl

theorem selectArms_local (hbelow : LocalBelow r n) (hts : ts.length ≤ n) :
    Local (Prospect .selectArms) Arms.mapPos (plainSelectArms d) (fun _ => plainSelectArms d)
      r ts := by
  have hendswitch := wordOf_isKeyword "endswitch"
  -- As for the other choice: each arm takes tokens.
  induction hm : ts.length using Nat.strongRecOn generalizing ts with
  | ind m ih =>
      subst hm
      refine .congr (bare_selectArms hstop ts _)
        (fun _ _ us hstop' => bare_selectArms hstop' us _) ?_
      refine .current fun t ht => .ite (fun _ => Iff.rfl) (fun hcase => ?_) fun _ => ?_
      · refine .skip hstop ht (kind_ne_eof_of_isKeyword hcase) fun us hus => ?_
        subst hus
        simp only [List.length_cons] at hts ih
        refine .phrase (hbelow .statement d us hts) [t] (fun _ => rfl) (fun e more he => ?_)
          fun guard first mid hguard hshorter => ?_
        · exact .of_derives [tokenOf .colon, tokenOf .identifier, wordOf "endswitch"]
            (.case hcase (tokenOf_kind .colon) he derives_statement (.endswitch hendswitch))
            (by simp)
        refine .expect hstop (.inl (.inl ?_)) fun colon vs hvs hcolon => ?_
        · exact .of_derives [tokenOf .colon, tokenOf .identifier, wordOf "endswitch"]
            (.case hcase (tokenOf_kind .colon) hguard derives_statement (.endswitch hendswitch))
            (by simp)
        have hcolon := beq_iff_eq.1 hcolon
        subst hvs
        simp only [List.length_cons] at hshorter
        refine .phrase (hbelow .statement d vs (by omega)) (t :: first ++ [colon]) (by simp)
          (fun e more he => ?_) fun body second mid hbody hbodyShorter => ?_
        · exact .of_derives [wordOf "endswitch"]
            (.case hcase hcolon hguard he (.endswitch hendswitch)) (by simp)
        refine .part .selectArms (ih mid.length (by omega) (by omega) rfl)
          (t :: first ++ colon :: second) (by simp) (fun arms more harms => ?_)
          fun others _ _ _ _ => .pure (Arms.arm guard body others)
        exact .of_derives [] (.case hcase hcolon hguard hbody harms) (by simp)
      refine .ite (fun _ => Iff.rfl) (fun hdefault => ?_) fun _ => ?_
      · refine .skip hstop ht (kind_ne_eof_of_isKeyword hdefault) fun us hus => ?_
        subst hus
        simp only [List.length_cons] at hts
        refine .expect hstop (.inl (.inl ?_)) fun colon vs hvs hcolon => ?_
        · exact .of_derives [tokenOf .colon, tokenOf .identifier, wordOf "endswitch"]
            (.default hdefault (tokenOf_kind .colon) hendswitch derives_statement) (by simp)
        have hcolon := beq_iff_eq.1 hcolon
        subst hvs
        simp only [List.length_cons] at hts
        refine .phrase (hbelow .statement d vs (by omega)) [t, colon] (fun _ => rfl)
          (fun e more he => ?_) fun last taken mid hlast _ => ?_
        · exact .of_derives [wordOf "endswitch"] (.default hdefault hcolon hendswitch he) (by simp)
        refine .expect hstop (.inl (.inl ?_)) fun _ _ _ _ => .pure (Arms.otherwise last)
        exact .of_derives [wordOf "endswitch"] (.default hdefault hcolon hendswitch hlast) (by simp)
      · refine .expect hstop (.inl (.inl ?_)) fun _ _ _ _ => .pure Arms.none
        exact .of_derives _ (.endswitch hendswitch) rfl

theorem loopBody_local (hbelow : LocalBelow r n) (hts : ts.length < n) :
    Local (Prospect .statements) (fun f es => es.map (Expr.mapPos f)) (plainLoopBody d)
      (fun _ => plainLoopBody d) r ts := by
  induction hm : ts.length using Nat.strongRecOn generalizing ts with
  | ind m ih =>
      subst hm
      refine .congr (bare_loopBody hstop ts _) (fun _ _ us hstop' => bare_loopBody hstop' us _) ?_
      refine .current fun t _ => .ite (fun _ => Iff.rfl) (fun _ => ?_) fun _ => ?_
      · exact .expect hstop (.inl (.inl (.of_derives [] .nil rfl))) fun _ _ _ _ => .pure []
      refine .phrase (hbelow .statement d ts hts) [] (fun _ => rfl) (fun e more he => ?_)
        fun first taken mid hfirst hshorter => ?_
      · exact .of_derives [] (.cons he .nil) (by simp)
      refine .part .statements (ih mid.length hshorter (by omega) rfl) taken (fun _ => rfl)
        (fun es more hes => ?_) fun others _ _ _ _ => .pure (first :: others)
      exact .of_derives [] (.cons hfirst hes) (by simp)

/-! ### Chains, negations and signs -/

theorem chain_local {level : Level} {left : Expr} {lts : List Token}
    (hbelow : LocalBelow r ts.length)
    (hleft : Derives Token.Denotes (.phrase (.chain level)) left lts) :
    Local (fun taken t => Prospect (.phrase (.chain level)) (lts ++ taken) t) Expr.mapPos
      (plainChain level d left) (fun f => plainChain level d (left.mapPos f)) r ts := by
  induction hm : ts.length using Nat.strongRecOn generalizing ts left lts with
  | ind m ih =>
      subst hm
      refine .congr (bare_chain hstop left ts _)
        (fun f _ us hstop' => bare_chain hstop' (left.mapPos f) us _) ?_
      refine .current fun op ht => .ite (fun f => by rw [level_accepts_mapPos]) (fun hop => ?_)
        fun _ => .pure left
      refine .skip hstop ht (fun heof => not_accepts_of_eof heof level hop) fun us hus => ?_
      subst hus
      have hjoins := joins_iff.2 hop
      refine .phrase (hbelow level.later d us (Nat.lt_succ_self _)) (lts ++ [op]) (by simp)
        (fun e more he => ?_) fun right taken mid hright hshorter => ?_
      · exact .of_derives [] (.joined hjoins hleft he) (by simp)
      have hmidShorter : mid.length < (op :: us).length := Nat.lt_succ_of_lt hshorter
      refine (ih mid.length hmidShorter (hbelow.mono (Nat.le_of_lt hmidShorter))
        (.joined hjoins hleft hright) rfl).mono fun more u h => ?_
      simpa using h

theorem climb_local (level : Level) (hbelow : LocalBelow r ts.length)
    (hfirst : LocalPhrase r level.first d ts) : LocalPhrase r (.chain level) d ts := by
  refine .congr (plain_chain hstop level) (fun _ _ _ hstop' => plain_chain hstop' level) ?_
  refine .phrase hfirst [] (fun _ => rfl) (fun e more he => ?_)
    fun first taken mid hfirst hmid => ?_
  · exact .of_derives [] (.first he) (by simp)
  · exact chain_local hstop (hbelow.mono (Nat.le_of_lt hmid)) (.first hfirst)

/-- Words and signs in front, each of which opens a level of nesting. -/
theorem unary_local {test : Token → Bool} {p plainer : Phrase}
    (htest : ∀ f t, test (Token.mapPos f t) = test t) (heof : ∀ t, test t → t.kind ≠ .eof)
    (hunary : ∀ {op e ts}, test op → Derives Token.Denotes (.phrase p) e ts →
      Derives Token.Denotes (.phrase p) (.unary op.operator e) (op :: ts))
    (hplain : ∀ {e ts}, Derives Token.Denotes (.phrase plainer) e ts →
      Derives Token.Denotes (.phrase p) e ts)
    (hbelow : LocalBelow r ts.length) (hplainer : LocalPhrase r plainer d ts) :
    Local (Prospect (.phrase p)) Expr.mapPos (plainUnary test p plainer d)
      (fun _ => plainUnary test p plainer d) r ts := by
  refine .current fun op ht => .ite (fun f => by rw [htest]) (fun hop => ?_) fun _ => ?_
  · refine .enter fun d => .skip hstop ht (heof _ hop) fun us hus => ?_
    subst hus
    refine .phrase (hbelow p d us (Nat.lt_succ_self _)) [op] (fun _ => rfl) (fun e more he => ?_)
      fun operand _ _ _ _ => .pure (Expr.unary op.operator operand)
    exact .of_derives [] (hunary hop he) (by simp)
  · refine hplainer.mono fun taken u h => h.inside [] (fun _ => rfl) fun e more he => ?_
    exact .of_derives [] (hplain he) (by simp)

theorem negation_local (hbelow : LocalBelow r ts.length)
    (hplain : LocalPhrase r (.chain .comparison) d ts) : LocalPhrase r .negation d ts := by
  refine .congr (plain_negation hstop) (fun _ _ _ hstop' => plain_negation hstop') ?_
  refine unary_local hstop (fun _ _ => rfl) (fun _ => kind_ne_eof_of_isKeyword) ?_ ?_ hbelow hplain
  · exact fun hop he => .negated hop he
  · exact fun he => .compared he

theorem factor_local (hbelow : LocalBelow r ts.length)
    (hplain : LocalPhrase r (.chain .power) d ts) : LocalPhrase r .factor d ts := by
  refine .congr (plain_factor hstop) (fun _ _ _ hstop' => plain_factor hstop') ?_
  refine unary_local hstop (fun _ _ => rfl) ?_ ?_ ?_ hbelow hplain
  · intro t hsign heof
    simp [Token.isSign, heof] at hsign
  · exact fun hop he => .signed (Token.isSign_iff.1 hop) he
  · exact fun he => .unsigned he

/-! ### Atoms and statements -/

theorem atom_local (hbelow : LocalBelow r ts.length) (hgroup : LocalPhrase r .group d ts) :
    LocalPhrase r .atom d ts := by
  refine .congr (plain_atom hstop) (fun _ _ _ hstop' => plain_atom hstop') ?_
  refine .current fun t ht => ?_
  -- Numbers, names and groups are known by their kinds, all else by its word.
  refine .ite (fun _ => Iff.rfl) (fun hnumeral => ?_) fun _ => ?_
  · have hkind : t.kind ≠ .eof := by
      rcases hnumeral with h | h <;> simp [h]
    exact .literal ht (.inl viable_atom) fun n =>
      .skip hstop ht hkind fun _ _ => .pure (Expr.num n t.pos)
  refine .ite (fun _ => Iff.rfl) (fun hname => ?_) fun _ => ?_
  · exact .skip hstop ht (by simp [hname]) fun _ _ => .pure (Expr.var t.literal t.pos)
  refine .ite (fun _ => Iff.rfl) (fun _ => ?_) fun _ => ?_
  · refine hgroup.mono fun taken u h => h.inside [] (fun _ => rfl) fun e more he => ?_
    exact .of_derives [] (.grouped he) (by simp)
  refine .ite (fun _ => Iff.rfl) (fun hif => ?_) fun _ => ?_
  · have hendif := wordOf_isKeyword "endif"
    refine .skip hstop ht (kind_ne_eof_of_isKeyword hif) fun us hus => ?_
    subst hus
    refine .part .conditional (conditional_local hstop hbelow (Nat.lt_succ_self _)) [t]
      (fun _ => rfl) (fun v more hv => ?_) fun first taken mid hrun hmid => ?_
    · exact .of_derives [wordOf "endif"] (.choose hif hv (.endif hendif)) (by simp)
    have hfirst := derives_of_plainConditional hrun hmid
    have hmidShorter := Nat.lt_succ_of_lt (plainConditional_shorter hrun)
    refine .part .chooseArms (chooseArms_local hstop hbelow (Nat.le_of_lt hmidShorter))
      (t :: taken) (by simp) (fun arms more harms => ?_)
      fun others _ _ _ _ => .pure (Expr.choose t.pos (.arm first.1 first.2 others))
    exact .of_derives [] (.choose hif hfirst harms) (by simp)
  refine .ite (fun _ => Iff.rfl) (fun hswitch => ?_) fun _ => ?_
  · have hendswitch := wordOf_isKeyword "endswitch"
    refine .skip hstop ht (kind_ne_eof_of_isKeyword hswitch) fun us hus => ?_
    subst hus
    refine .phrase (hbelow .statement d us (Nat.lt_succ_self _)) [t] (fun _ => rfl)
      (fun e more he => ?_) fun subject taken mid hsubject hshorter => ?_
    · exact .of_derives [wordOf "endswitch"] (.select hswitch he (.endswitch hendswitch))
        (by simp)
    have hmidShorter := Nat.lt_succ_of_lt hshorter
    refine .part .selectArms (selectArms_local hstop hbelow (Nat.le_of_lt hmidShorter))
      (t :: taken) (by simp) (fun arms more harms => ?_)
      fun arms _ _ _ _ => .pure (Expr.select t.pos subject arms)
    exact .of_derives [] (.select hswitch hsubject harms) (by simp)
  refine .ite (fun _ => Iff.rfl) (fun hwhile => ?_) fun _ => .fail fun _ => ?_
  · have hthen := wordOf_isKeyword "then"
    have hendwhile := wordOf_isKeyword "endwhile"
    refine .skip hstop ht (kind_ne_eof_of_isKeyword hwhile) fun us hus => ?_
    subst hus
    refine .phrase (hbelow .group d us (Nat.lt_succ_self _)) [t] (fun _ => rfl)
      (fun e more he => ?_) fun condition taken mid hcondition hshorter => ?_
    · exact .of_derives [wordOf "then", wordOf "endwhile"]
        (.loop hwhile hthen hendwhile he .nil) (by simp)
    refine .expect hstop (.inl (.inl ?_)) fun opening vs hvs hopening => ?_
    · exact .of_derives [wordOf "then", wordOf "endwhile"]
        (.loop hwhile hthen hendwhile hcondition .nil) (by simp)
    have hvsShorter : vs.length < (t :: us).length := by
      simp only [hvs, List.length_cons] at hshorter ⊢
      omega
    refine .part .statements (loopBody_local hstop hbelow hvsShorter) (t :: taken ++ [opening])
      (by simp) (fun es more hes => ?_) fun body _ _ _ _ => ?_
    · exact .of_derives [wordOf "endwhile"] (.loop hwhile hopening hendwhile hcondition hes)
        (by simp)
    · refine .congr rfl (fun f r' us _ => ?_) (.pure (Expr.loop t.pos condition body))
      rw [Expr.mapPos, Expr.mapPosAll_eq_map]
      rfl
  · exact ⟨congrArg Token.pos ht, .inl viable_atom⟩

omit hstop in
/-- A name alone is an expression, whatever the limit. -/
theorem plain_name {t : Token} (ht : t.kind = .identifier) :
    ∃ e, plain (.chain .logic) d r [t] = .ok (e, []) := by
  have hreads : Reads r.limit d (.phrase (.chain .logic)) (.var t.literal t.pos) [t] :=
    .first (.compared (.first (.first (.first (.unsigned (.first (.named ht)))))))
  exact ⟨_, bare_of_yields ((accepted_of_reads hreads).yields (.nil _))⟩

/-- The next two tokens begin an assignment when the first is a name and the other, which may be the
end of input, is an equals sign. -/
theorem assigns_cons (t : Token) (us : List Token) :
    Plain.assigns r (t :: us) =
      .ok (t.kind == .identifier && (r.current us).kind == .assign, t :: us) := by
  cases us with
  | nil => simp [Plain.assigns, Rules.current_nil, hstop]
  | cons u us => rfl

/-- An expression that begins with a name takes the name, so that not to find an assignment is to
look no further than the expression does. -/
theorem assigns_local {k : Bool → Plain Expr} {k' : (Position → Position) → Bool → Plain Expr}
    (hk : k false = plain (.chain .logic) d) (hk' : ∀ f, k' f false = plain (.chain .logic) d)
    (hassigns : Plain.assigns r ts = .ok (false, ts))
    (h : LocalPhrase r (.chain .logic) d ts) :
    Local (Prospect (.phrase (.chain .logic))) Expr.mapPos (Plain.assigns >>= k)
      (fun f => Plain.assigns >>= k' f) r ts := by
  obtain ⟨taken, rest, rfl, hat⟩ := h
  have hrun : (Plain.assigns >>= k) r (taken ++ rest) =
      plain (.chain .logic) d r (taken ++ rest) := by
    rw [Plain.bind_of_ok hassigns, hk]
  refine ⟨taken, rest, rfl, ?_, ?_, ?_⟩
  · rw [hrun]
    exact hat.left
  · rw [hrun]
    exact hat.fails
  intro f r' us hbeside
  have hmoved : Plain.assigns r' (taken.map (Token.mapPos f) ++ us) =
      .ok (false, taken.map (Token.mapPos f) ++ us) := by
    cases taken with
    | cons t more =>
        rw [List.cons_append, assigns_cons hstop] at hassigns
        rw [List.map_cons, List.cons_append, assigns_cons hbeside.stop,
          (hbeside.append more).current]
        have hnot := (Prod.mk.inj (Except.ok.inj hassigns)).1
        exact congrArg (fun b => Except.ok (b, _)) hnot
    | nil =>
        cases us with
        | nil => rfl
        | cons u us =>
            have hname : u.kind ≠ .identifier := by
              intro hname
              have halone : Beside f r rest r' [u] := ⟨hbeside.limit, hbeside.stop, hbeside.current⟩
              obtain ⟨e, he⟩ := @plain_name r' d u hname
              have hfollows := hat.follows halone
              rw [List.map_nil, List.nil_append, he] at hfollows
              revert hfollows
              rw [List.nil_append]
              cases plain (.chain .logic) d r rest with
              | error fault => exact fun hfollows => by cases hfollows
              | ok answer => exact fun hfollows => by cases hfollows
            simp [assigns_cons hbeside.stop, hname]
  rw [hrun, Plain.bind_of_ok hmoved, hk']
  exact hat.follows hbeside

theorem statement_local (hbelow : LocalBelow r ts.length)
    (hplain : ∀ d, LocalPhrase r (.chain .logic) d ts) : LocalPhrase r .statement d ts := by
  refine .congr (plain_statement hstop) (fun _ _ _ hstop' => plain_statement hstop') ?_
  refine .enter fun d => .current fun t ht => ?_
  refine .ite (fun _ => Iff.rfl) (fun hexit => ?_) fun _ => ?_
  · -- No derivation has a request to exit, but what is missing can be told from what was taken.
    refine .skip hstop ht (kind_ne_eof_of_isKeyword hexit) fun us hus => ?_
    refine .expect hstop ?_ fun opening vs _ hopening => ?_
    · refine or_iff_not_imp_right.2 fun hrefused => .inr ⟨[], t, hexit, .inl ⟨rfl, ?_⟩⟩
      exact fun hkind => hrefused (beq_iff_eq.2 hkind)
    have hopening := beq_iff_eq.1 hopening
    refine .expect hstop ?_ fun _ _ _ _ => .fail fun hcode => by cases hcode
    refine or_iff_not_imp_right.2 fun hrefused => .inr ⟨[], t, hexit, .inr ⟨opening, hopening, ?_⟩⟩
    exact ⟨rfl, fun hkind => hrefused (beq_iff_eq.2 hkind)⟩
  refine .ite (fun _ => Iff.rfl) (fun hvar => ?_) fun _ => ?_
  · refine .skip hstop ht (kind_ne_eof_of_isKeyword hvar) fun us hus => ?_
    subst hus
    refine .expect hstop (.inl (.inl ?_)) fun name vs hvs hname => ?_
    · exact .of_derives [tokenOf .identifier, tokenOf .assign, tokenOf .identifier]
        (.declare hvar (tokenOf_kind _) (tokenOf_kind _) derives_statement) (by simp)
    have hname := beq_iff_eq.1 hname
    refine .expect hstop (.inl (.inl ?_)) fun equals ws hws hequals => ?_
    · exact .of_derives [tokenOf .assign, tokenOf .identifier]
        (.declare hvar hname (tokenOf_kind _) derives_statement) (by simp)
    have hequals := beq_iff_eq.1 hequals
    have hshorter : ws.length < (t :: us).length := by
      simp only [hvs, hws, List.length_cons]
      omega
    refine .phrase (hbelow .statement d ws hshorter) [t, name, equals] (fun _ => rfl)
      (fun e more he => ?_) fun value _ _ _ _ => .pure (Expr.assign name.literal name.pos value)
    exact .of_derives [] (.declare hvar hname hequals he) (by simp)
  by_cases hassign : ∃ name equals us, ts = name :: equals :: us ∧ name.kind = .identifier ∧
      equals.kind = .assign
  · obtain ⟨name, equals, us, rfl, hname, hequals⟩ := hassign
    obtain rfl : name = t := ht.symm
    have hshorter : us.length < (name :: equals :: us).length := by
      simp only [List.length_cons]
      omega
    have hvalue : Local (fun taken u => Prospect (.phrase .statement) (name :: equals :: taken) u)
        Expr.mapPos
        (plain .statement d >>= fun value => pure (.assign name.literal name.pos value))
        (fun f => plain .statement d >>= fun value =>
          pure (.assign name.literal (f name.pos) value))
        r us := by
      refine .phrase (hbelow .statement d us hshorter) [name, equals] (fun _ => rfl)
        (fun e more he => ?_) fun value _ _ _ _ => .pure (Expr.assign name.literal name.pos value)
      exact .of_derives [] (.assign hname hequals he) (by simp)
    -- Both tokens are taken, wherever they stand.
    have hassigns : ∀ (f : Position → Position) r' us,
        Plain.assigns r' (name.mapPos f :: equals.mapPos f :: us) =
          .ok (true, name.mapPos f :: equals.mapPos f :: us) := by
      intro f r' us
      simp [Plain.assigns, hname, hequals]
    refine .of_front_pair ?_ ?_ hvalue
    · exact (Plain.bind_of_ok (hassigns id r us)).trans rfl
    · exact fun f r' vs => (Plain.bind_of_ok (hassigns f r' vs)).trans rfl
  · have hassigns : Plain.assigns r ts = .ok (false, ts) := by
      rcases ts with _ | ⟨t, _ | ⟨u, us⟩⟩
      · rfl
      · rfl
      · have hnot : ¬ (t.kind = .identifier ∧ u.kind = .assign) :=
          fun h => hassign ⟨t, u, us, rfl, h.1, h.2⟩
        simpa [Plain.assigns] using hnot
    refine (assigns_local hstop rfl (fun _ => rfl) hassigns (hplain d)).mono fun taken u h => ?_
    refine h.inside [] (fun _ => rfl) fun e more he => ?_
    exact .of_derives [] (.expression he) (by simp)

/-- All phrases on some tokens, when all are on fewer. -/
theorem phrase_local_of_below (hbelow : LocalBelow r ts.length) (p : Phrase) (d : Nat) :
    LocalPhrase r p d ts := by
  have hgroup (d : Nat) := group_local hstop (d := d) hbelow
  have hatom (d : Nat) := atom_local hstop hbelow (hgroup d)
  have hpower (d : Nat) := climb_local hstop .power hbelow (hatom d)
  have hfactor (d : Nat) := factor_local hstop hbelow (hpower d)
  have hproduct (d : Nat) := climb_local hstop .product hbelow (hfactor d)
  have hsum (d : Nat) := climb_local hstop .sum hbelow (hproduct d)
  have hcomparison (d : Nat) := climb_local hstop .comparison hbelow (hsum d)
  have hnegation (d : Nat) := negation_local hstop hbelow (hcomparison d)
  have hlogic (d : Nat) := climb_local hstop .logic hbelow (hnegation d)
  cases p with
  | statement => exact statement_local hstop hbelow hlogic
  | chain level =>
      cases level with
      | logic => exact hlogic d
      | comparison => exact hcomparison d
      | sum => exact hsum d
      | product => exact hproduct d
      | power => exact hpower d
  | negation => exact hnegation d
  | factor => exact hfactor d
  | atom => exact hatom d
  | group => exact hgroup d

theorem phrase_local (p : Phrase) (d : Nat) (ts : List Token) : LocalPhrase r p d ts := by
  have hall : ∀ n, LocalBelow r n := by
    intro n
    induction n with
    | zero => exact fun p d ts hts => absurd hts (Nat.not_lt_zero _)
    | succ n ih =>
        intro p d ts hts
        exact phrase_local_of_below hstop (ih.mono (Nat.le_of_lt_succ hts)) p d
  exact hall (ts.length + 1) p d ts (Nat.lt_succ_self _)

/-! ## Programs -/

/-- A program looks no further than one token ahead, and fails where the tokens in front can still
be completed. -/
theorem program_local (ts : List Token) :
    ∃ taken rest, ts = taken ++ rest ∧
      (∀ fault, program r ts = .error fault → fault.code = .grammar →
        fault.pos = (r.current rest).pos ∧ Prospect .statements taken (r.current rest)) ∧
      ∀ f r' us, Beside f r rest r' us →
        program r' (taken.map (Token.mapPos f) ++ us) = movedProgram f (program r ts) := by
  -- Each statement takes tokens, so that the statements end with the tokens.
  induction hn : ts.length using Nat.strongRecOn generalizing ts with
  | ind n ih =>
      subst hn
      by_cases hkind : (r.current ts).kind = .eof
      · refine ⟨[], ts, rfl, ?_, ?_⟩
        · rw [program_of_eof hkind]
          rintro fault ⟨⟩
        · intro f r' us hbeside
          have hmoved : (r'.current us).kind = .eof := by rw [hbeside.current]; exact hkind
          rw [program_of_eof hkind, List.map_nil, List.nil_append, program_of_eof hmoved]
          rfl
      obtain ⟨taken, rest, rfl, hat⟩ := phrase_local hstop .statement 0 ts
      have hmovedKind : ∀ {f r' us}, Beside f r (taken ++ rest) r' us →
          (r'.current us).kind ≠ .eof := by
        intro f r' us hbeside
        rw [hbeside.current]
        exact hkind
      cases hrun : plain .statement 0 r (taken ++ rest) with
      | error fault =>
          have hprogram := program_of_error hstop hkind hrun
          refine ⟨taken, rest, rfl, ?_, ?_⟩
          · rw [hprogram]
            rintro other ⟨⟩ hcode
            obtain ⟨hpos, hprospect⟩ := hat.fails hrun hcode
            refine ⟨hpos, hprospect.inside [] (fun _ => rfl) fun e more he => ?_⟩
            exact .of_derives [] (.cons he .nil) (by simp)
          · intro f r' us hbeside
            have hfollows := hat.follows hbeside
            rw [hrun] at hfollows
            rw [hprogram]
            exact program_of_error hbeside.stop (hmovedKind (hbeside.append taken)) hfollows
      | ok answer =>
          rcases answer with ⟨first, mid⟩
          obtain rfl := hat.left hrun
          have hfirst := derives_of_plain hrun rfl
          have hprogram := program_of_ok hstop hkind hrun
          obtain ⟨more, last, hmid, hfails, hfollows⟩ := ih mid.length (plain_shorter hrun) mid rfl
          refine ⟨taken ++ more, last, by rw [hmid, List.append_assoc], ?_, ?_⟩
          · intro fault hfault hcode
            have hothers : program r mid = .error fault := by
              rw [hprogram] at hfault
              cases hothers : program r mid with
              | error other => rw [hothers] at hfault; exact hfault
              | ok others => rw [hothers] at hfault; cases hfault
            obtain ⟨hpos, hprospect⟩ := hfails fault hothers hcode
            refine ⟨hpos, hprospect.inside taken (fun _ => rfl) fun es more hes => ?_⟩
            exact .of_derives [] (.cons hfirst hes) (by simp)
          · intro f r' us hbeside
            have hbegins : Beside f r mid r' (more.map (Token.mapPos f) ++ us) :=
              hmid ▸ hbeside.append more
            have hfirstMoved := hat.follows hbegins
            rw [hrun] at hfirstMoved
            rw [hprogram, List.map_append, List.append_assoc,
              program_of_ok hbeside.stop (hmovedKind (hbegins.append taken)) hfirstMoved,
              hfollows f r' us hbeside]
            cases program r mid <;> rfl

end Phrases
end Reckoner.Parser
