import Reckoner.Proofs.Reading

/-!
# What is parsed was read

Each production that succeeds has taken tokens off the front whose reading is its value, and stops
where no operator of its own can follow. One lemma for each production says this under the
assumption that it holds of all phrases on fewer tokens; induction on the number of tokens joins
them.

* `Sound` — a phrase is parsed only as it reads;
* `sound` — all phrases are;
* `reads_of_program` — and with them whole programs.
-/

namespace Reckoner.Parser

variable {r : Rules} {d : Nat}

/-- Whatever the phrase is parsed as from these tokens, the tokens taken read as. -/
def Sound (r : Rules) (p : Phrase) (ts : List Token) : Prop :=
  ∀ d e rest, Yields (parsePhrase r d p ts) e rest →
    ∃ taken, ts = taken ++ rest ∧ Reads r.limit d (.phrase p) e taken ∧ Closed p.rank rest

/-- All phrases are sound on fewer tokens. -/
def SoundBelow (r : Rules) (n : Nat) : Prop :=
  ∀ p (ts : List Token), ts.length < n → Sound r p ts

theorem SoundBelow.mono {n m : Nat} (h : SoundBelow r n) (hle : m ≤ n) : SoundBelow r m := by
  intro p ts hts
  exact h p ts (by omega)

/-! ## Chains -/

/-- The operands and operators read so far grow to the left. -/
theorem chain_sound {level : Level} (hlevel : level ≠ .power) {before ts lts rest : List Token}
    {left e : Expr} {hshorter : ts.length < before.length} (hbelow : SoundBelow r ts.length)
    (hleft : Reads r.limit d (.phrase (.chain level)) left lts)
    (hclosed : Closed level.first.rank ts)
    (h : Yields (chain r d level left ts hshorter) e rest) :
    ∃ taken, ts = taken ++ rest ∧ Reads r.limit d (.phrase (.chain level)) e (lts ++ taken) ∧
      Closed level.rank rest := by
  -- The tokens that are left decide: the tree on the left only gets larger.
  generalize hn : ts.length = n at hbelow
  induction n using Nat.strongRecOn generalizing ts left lts with
  | ind n ih =>
      subst hn
      rcases chain_cases h with
        ⟨hstop, rfl, rfl⟩ | ⟨op, us, right, mid, hmid, rfl, hop, hright, hgo⟩
      · exact ⟨[], rfl, by simpa using hleft, hclosed.chain hstop⟩
      · rw [Level.later_eq_first hlevel] at hright
        rcases hbelow _ us (by simp) d right mid hright with ⟨operand, rfl, hoperand, hmidClosed⟩
        have hjoined := Reads.joined hlevel (joins_iff.2 hop) hleft hoperand
        have hlt : mid.length < (op :: (operand ++ mid)).length := by
          simp only [List.length_cons, List.length_append]
          omega
        rcases ih mid.length hlt hjoined hmidClosed hgo rfl (hbelow.mono (Nat.le_of_lt hlt)) with
          ⟨more, rfl, hmore, hend⟩
        exact ⟨op :: operand ++ more, by simp, by simpa using hmore, hend⟩

theorem climb_sound {level : Level} (hlevel : level ≠ .power) {ts : List Token}
    (hbelow : SoundBelow r ts.length) (hfirst : Sound r level.first ts) :
    Sound r (.chain level) ts := by
  intro d e rest h
  rcases climb_cases h with ⟨first, mid, hmid, hleading, hchain⟩
  rcases hfirst d first mid hleading with ⟨operand, rfl, hoperand, hclosed⟩
  rcases chain_sound hlevel (hbelow.mono (Nat.le_of_lt hmid)) (.first hoperand) hclosed hchain with
    ⟨more, rfl, hmore, hend⟩
  exact ⟨operand ++ more, by simp, hmore, hend⟩

/-- A power has one exponent: the factor there takes every further power. -/
theorem power_sound {ts : List Token} (hbelow : SoundBelow r ts.length) (hatom : Sound r .atom ts) :
    Sound r (.chain .power) ts := by
  intro d e rest h
  rcases climb_cases h with ⟨first, mid, hmid, hleading, hchain⟩
  rcases hatom d first mid hleading with ⟨base, rfl, hbase, hclosed⟩
  rcases chain_cases hchain with
    ⟨hstop, rfl, rfl⟩ | ⟨op, us, right, mid, hmid, rfl, hop, hright, hgo⟩
  · exact ⟨base, rfl, .first hbase, @Closed.chain .power _ hclosed hstop⟩
  · have hus : us.length < (base ++ op :: us).length := by
      simp only [List.length_append, List.length_cons]
      omega
    rcases hbelow .factor us hus d right mid hright with ⟨exponent, rfl, hexponent, hend⟩
    have hpow : op.kind = .pow := by simpa [Level.accepts] using hop
    -- The exponent has taken every power, so that the chain stops behind it.
    rcases chain_cases hgo with ⟨-, rfl, rfl⟩ | ⟨op', us, _, _, _, rfl, hop', -, -⟩
    · exact ⟨base ++ op :: exponent, by simp, .raised hpow hbase hexponent, hend⟩
    · have hnot := hend op' (by simp) .power (Nat.le_refl _)
      simp [hop'] at hnot

/-! ## Negations and signs -/

theorem negation_sound {ts : List Token} (hbelow : SoundBelow r ts.length)
    (hplain : Sound r (.chain .comparison) ts) : Sound r .negation ts := by
  intro d e rest h
  -- Behind `not` stands a negation on fewer tokens; without it the comparison is on the same.
  by_cases hnot : ∀ t ∈ ts.head?, t.isKeyword "not" = false
  · have h' : Yields (climb r d .comparison ts) e rest := by rwa [← comparison_plain hnot]
    rcases hplain d e rest h' with ⟨taken, hts, hreads, hclosed⟩
    exact ⟨taken, hts, .compared hreads, hclosed⟩
  · cases ts with
    | nil => simp at hnot
    | cons op us =>
        have hop : op.isKeyword "not" = true := by simpa using hnot
        rcases (comparison_not hop).1 h with ⟨hfits, operand, rfl, hoperand⟩
        rcases hbelow .negation us (by simp) _ operand rest hoperand with
          ⟨taken, rfl, hreads, hclosed⟩
        exact ⟨op :: taken, rfl, .negated hfits hop hreads, hclosed⟩

theorem factor_sound {ts : List Token} (hbelow : SoundBelow r ts.length)
    (hplain : Sound r (.chain .power) ts) : Sound r .factor ts := by
  intro d e rest h
  by_cases hsign : ∀ t ∈ ts.head?, t.isSign = false
  · have h' : Yields (climb r d .power ts) e rest := by rwa [← factor_unsigned hsign]
    rcases hplain d e rest h' with ⟨taken, hts, hreads, hclosed⟩
    exact ⟨taken, hts, .unsigned hreads, hclosed⟩
  · cases ts with
    | nil => simp at hsign
    | cons op us =>
        have hop : op.isSign = true := by simpa using hsign
        rcases (factor_signed hop).1 h with ⟨hfits, operand, rfl, hoperand⟩
        rcases hbelow .factor us (by simp) _ operand rest hoperand with
          ⟨taken, rfl, hreads, hclosed⟩
        exact ⟨op :: taken, rfl, .signed hfits hop hreads, hclosed⟩

/-! ## Parentheses, arms and bodies -/

theorem closed_zero (rest : List Token) : Closed 0 rest := by
  intro t _ level hlevel
  cases level <;> simp [Level.rank] at hlevel

theorem group_sound {ts : List Token} (hbelow : SoundBelow r ts.length) : Sound r .group ts := by
  intro d e rest h
  rcases parens_yields_iff.1 h with ⟨opening, closing, us, rfl, hopening, hclosing, hinner⟩
  rcases hbelow .statement us (by simp) d e _ hinner with ⟨taken, rfl, hreads, -⟩
  exact ⟨opening :: taken ++ [closing], by simp, .group hopening hclosing hreads, closed_zero _⟩

theorem conditional_sound {ts rest : List Token} {condition body : Expr} {n : Nat}
    (hbelow : SoundBelow r n) (hts : ts.length < n)
    (h : Yields (conditional r d ts) (condition, body) rest) :
    ∃ taken, ts = taken ++ rest ∧ Reads r.limit d .conditional (condition, body) taken := by
  rcases conditional_yields_iff.1 h with ⟨opening, us, hopening, hcondition, hbody⟩
  rcases hbelow .group ts hts d condition _ hcondition with ⟨first, rfl, hfirst, -⟩
  have hus : us.length < n := by
    simp only [List.length_append, List.length_cons] at hts
    omega
  rcases hbelow .statement us hus d body rest hbody with ⟨second, rfl, hsecond, -⟩
  exact ⟨first ++ opening :: second, by simp, .conditional hopening hfirst hsecond⟩

theorem chooseArms_sound {before ts rest : List Token} {arms : Arms} {n : Nat}
    {hshorter : ts.length < before.length} (hbelow : SoundBelow r n) (hts : ts.length ≤ n)
    (h : Yields (chooseArms r d ts hshorter) arms rest) :
    ∃ taken, ts = taken ++ rest ∧ Reads r.limit d .chooseArms arms taken := by
  -- Each arm takes tokens, so the arms end with the tokens.
  induction hm : ts.length using Nat.strongRecOn generalizing ts arms with
  | ind m ih =>
      subst hm
      rcases chooseArms_cases h with
        ⟨t, us, condition, body, others, mid, hmid, rfl, ht, rfl, hcase, hothers⟩ |
        ⟨t, us, e, closing, rfl, ht, rfl, hclosing, he⟩ | ⟨t, rfl, ht, rfl⟩
      · rcases conditional_sound hbelow hts hcase with ⟨first, rfl, hfirst⟩
        simp only [List.length_cons, List.length_append] at hts
        rcases ih mid.length (by simp only [List.length_cons, List.length_append]; omega)
          (by omega) hothers rfl with ⟨second, rfl, hsecond⟩
        exact ⟨t :: first ++ second, by simp, .elif ht hfirst hsecond⟩
      · rcases hbelow .statement us hts d e _ he with ⟨taken, rfl, hreads, -⟩
        exact ⟨t :: taken ++ [closing], by simp, .otherwise ht hclosing hreads⟩
      · exact ⟨[t], rfl, .endif ht⟩

theorem selectArms_sound {before ts rest : List Token} {arms : Arms} {n : Nat}
    {hshorter : ts.length < before.length} (hbelow : SoundBelow r n) (hts : ts.length ≤ n)
    (h : Yields (selectArms r d ts hshorter) arms rest) :
    ∃ taken, ts = taken ++ rest ∧ Reads r.limit d .selectArms arms taken := by
  -- As for the other choice: each arm takes tokens.
  induction hm : ts.length using Nat.strongRecOn generalizing ts arms with
  | ind m ih =>
      subst hm
      rcases selectArms_cases h with
        ⟨t, us, guard, colon, vs, body, mid, others, hmid, rfl, ht, rfl, hcolon, hguard, hbody,
          hothers⟩ |
        ⟨t, colon, us, e, closing, rfl, ht, rfl, hcolon, hclosing, he⟩ | ⟨t, rfl, ht, rfl⟩
      · rcases hbelow .statement us hts d guard _ hguard with ⟨first, rfl, hfirst, -⟩
        simp only [List.length_cons, List.length_append] at hts
        rcases hbelow .statement vs (by omega) d body mid hbody with ⟨second, rfl, hsecond, -⟩
        simp only [List.length_append] at hts
        rcases ih mid.length (by simp only [List.length_cons, List.length_append]; omega)
          (by omega) hothers rfl with ⟨third, rfl, hthird⟩
        exact ⟨t :: first ++ colon :: second ++ third, by simp,
          .case ht hcolon hfirst hsecond hthird⟩
      · simp only [List.length_cons] at hts
        rcases hbelow .statement us (by omega) d e _ he with ⟨taken, rfl, hreads, -⟩
        exact ⟨t :: colon :: taken ++ [closing], by simp, .default ht hcolon hclosing hreads⟩
      · exact ⟨[t], rfl, .endswitch ht⟩

/-- No statement behind another begins with a sign: the one before would have gone on with it. -/
theorem isSign_eq_false_of_closed {ts : List Token} (h : Closed Phrase.statement.rank ts) :
    ∀ t ∈ ts.head?, t.isSign = false := by
  intro t ht
  have hsum := h t ht .sum (by decide)
  simp only [Level.accepts, Bool.or_eq_false_iff] at hsum
  simp [Token.isSign, hsum]

/-- A statement and what was read behind it. -/
theorem reads_cons_of_closed {limit : Nat} {e : Expr} {es : List Expr} {ts us rest : List Token}
    (hfirst : Reads limit d (.phrase .statement) e ts)
    (hclosed : Closed Phrase.statement.rank (us ++ rest))
    (hothers : Reads limit d .statements es us) :
    Reads limit d .statements (e :: es) (ts ++ us) := by
  refine .cons ?_ hfirst hothers
  cases us with
  | nil => simp
  | cons u us => exact forall_mem_head?_cons (isSign_eq_false_of_closed hclosed u (by simp))

theorem loopBody_sound {before ts rest : List Token} {es : List Expr} {n : Nat}
    {hshorter : ts.length < before.length} (hbelow : SoundBelow r n) (hts : ts.length < n)
    (h : Yields (loopBody r d ts hshorter) es rest) :
    ∃ taken closing, ts = taken ++ closing :: rest ∧ closing.isKeyword "endwhile" ∧
      Reads r.limit d .statements es taken := by
  -- Each statement takes tokens, and stops where no operator follows.
  induction hm : ts.length using Nat.strongRecOn generalizing ts es with
  | ind m ih =>
      subst hm
      rcases loopBody_cases h with
        ⟨t, rfl, ht, rfl⟩ | ⟨first, others, mid, hmid, rfl, hfirst, hothers⟩
      · exact ⟨[], t, rfl, ht, .nil⟩
      · have hmidShorter := hfirst.shorter
        rcases hbelow .statement ts hts d first mid hfirst with ⟨taken, rfl, hreads, hclosed⟩
        rcases ih mid.length hmidShorter (by omega) hothers rfl with
          ⟨more, closing, rfl, hclosing, hmore⟩
        exact ⟨taken ++ more, closing, by simp, hclosing, reads_cons_of_closed hreads hclosed hmore⟩

/-! ## Atoms and statements -/

theorem atom_sound {ts : List Token} (hbelow : SoundBelow r ts.length)
    (hgroup : Sound r .group ts) : Sound r .atom ts := by
  intro d e rest h
  rcases atom_cases h with ⟨t, us, rfl, ht⟩
  have hus : us.length < (t :: us).length := by simp
  -- Its first token decides what the atom is.
  rcases ht with ht | ht | ht | ht | ht | ht
  · rcases (atom_number ht).1 h with ⟨rfl, n, hn, rfl⟩
    exact ⟨[t], rfl, .number ht hn, closed_zero _⟩
  · rcases (atom_variable ht).1 h with ⟨rfl, rfl⟩
    exact ⟨[t], rfl, .named ht, closed_zero _⟩
  · have hparens : Yields (parens r d (t :: us)) e rest := by rwa [← atom_group ht]
    rcases hgroup d e rest hparens with ⟨taken, hts, hreads, -⟩
    exact ⟨taken, hts, .grouped hreads, closed_zero _⟩
  · rcases (atom_choose ht).1 h with ⟨condition, body, arms, mid, hmid, rfl, hfirst, harms⟩
    rcases conditional_sound hbelow hus hfirst with ⟨first, rfl, hreads⟩
    rcases chooseArms_sound hbelow (by simp only [List.length_cons] at hus ⊢; omega) harms with
      ⟨second, rfl, hothers⟩
    exact ⟨t :: first ++ second, by simp, .choose ht hreads hothers, closed_zero _⟩
  · rcases (atom_select ht).1 h with ⟨subject, arms, mid, hmid, rfl, hsubject, harms⟩
    rcases hbelow .statement us hus d subject mid hsubject with ⟨first, rfl, hreads, -⟩
    rcases selectArms_sound hbelow (by simp only [List.length_cons] at hus ⊢; omega) harms with
      ⟨second, rfl, hothers⟩
    exact ⟨t :: first ++ second, by simp, .select ht hreads hothers, closed_zero _⟩
  · rcases (atom_loop ht).1 h with
      ⟨condition, body, opening, vs, hvs, rfl, hopening, hcondition, hbody⟩
    rcases hbelow .group us hus d condition _ hcondition with ⟨first, rfl, hreads, -⟩
    have hvsBelow : vs.length < (t :: (first ++ opening :: vs)).length := by
      simp only [List.length_cons, List.length_append]
      omega
    rcases loopBody_sound hbelow hvsBelow hbody with ⟨second, closing, rfl, hclosing, hstatements⟩
    exact ⟨t :: first ++ opening :: second ++ [closing], by simp,
      .loop ht hopening hclosing hreads hstatements, closed_zero _⟩

theorem statement_sound {ts : List Token} (hbelow : SoundBelow r ts.length)
    (hplain : Sound r (.chain .logic) ts) : Sound r .statement ts := by
  intro d e rest h
  have hfits := statement_fits h
  rcases statement_cases h with
    ⟨v, name, equals, us, value, rfl, hv, hname, hequals, rfl, hvalue⟩ |
    ⟨name, equals, us, value, rfl, hname, hequals, rfl, hvalue⟩ | ⟨-, hvalue⟩
  · rcases hbelow .statement us (by simp only [List.length_cons]; omega) _ value rest hvalue with
      ⟨taken, rfl, hreads, hclosed⟩
    exact ⟨v :: name :: equals :: taken, rfl, .declare hfits hv hname hequals hreads, hclosed⟩
  · rcases hbelow .statement us (by simp only [List.length_cons]; omega) _ value rest hvalue with
      ⟨taken, rfl, hreads, hclosed⟩
    exact ⟨name :: equals :: taken, rfl, .assign hfits hname hequals hreads, hclosed⟩
  · rcases hplain _ e rest hvalue with ⟨taken, hts, hreads, hclosed⟩
    exact ⟨taken, hts, .expression hfits hreads, hclosed⟩

/-! ## All phrases -/

/-- From the phrases on fewer tokens to all phrases on these, in the order of the descent. -/
theorem sound_of_below {ts : List Token} (hbelow : SoundBelow r ts.length) (p : Phrase) :
    Sound r p ts := by
  -- On the same tokens each phrase needs only the one it descends to.
  have hgroup : Sound r .group ts := group_sound hbelow
  have hatom : Sound r .atom ts := atom_sound hbelow hgroup
  have hpower : Sound r (.chain .power) ts := power_sound hbelow hatom
  have hfactor : Sound r .factor ts := factor_sound hbelow hpower
  have hproduct : Sound r (.chain .product) ts := climb_sound (by decide) hbelow hfactor
  have hsum : Sound r (.chain .sum) ts := climb_sound (by decide) hbelow hproduct
  have hcomparison : Sound r (.chain .comparison) ts := climb_sound (by decide) hbelow hsum
  have hnegation : Sound r .negation ts := negation_sound hbelow hcomparison
  have hlogic : Sound r (.chain .logic) ts := climb_sound (by decide) hbelow hnegation
  cases p with
  | statement => exact statement_sound hbelow hlogic
  | negation => exact hnegation
  | factor => exact hfactor
  | atom => exact hatom
  | group => exact hgroup
  | chain level =>
      cases level with
      | logic => exact hlogic
      | comparison => exact hcomparison
      | sum => exact hsum
      | product => exact hproduct
      | power => exact hpower

theorem sound (p : Phrase) (ts : List Token) : Sound r p ts := by
  induction hn : ts.length using Nat.strongRecOn generalizing p ts with
  | ind n ih =>
      subst hn
      refine sound_of_below ?_ p
      intro q us hus
      exact ih us.length hus q us rfl

/-- What a program is parsed as, its tokens read as. -/
theorem reads_of_program {ts : List Token} {es : Program} (hkinds : ∀ t ∈ ts, t.kind ≠ .eof)
    (h : program r ts = .ok es) : Reads r.limit 0 .statements es ts := by
  induction hn : ts.length using Nat.strongRecOn generalizing ts es with
  | ind n ih =>
      subst hn
      cases ts with
      | nil =>
          rw [program_nil] at h
          cases h
          exact .nil
      | cons t us =>
          rcases (program_cons (hkinds t (by simp))).1 h with
            ⟨first, others, mid, rfl, hfirst, hothers⟩
          have hshorter := hfirst.shorter
          rcases sound .statement _ 0 first mid hfirst with ⟨taken, hts, hreads, hclosed⟩
          have hmid : ∀ t ∈ mid, t.kind ≠ .eof := by
            intro u hu
            exact hkinds u (by simp [hts, hu])
          have hclosed' : Closed Phrase.statement.rank (mid ++ []) := by simpa using hclosed
          -- The first statement stops in front of the others, so these do not begin with a sign.
          rw [hts]
          exact reads_cons_of_closed hreads hclosed' (ih mid.length hshorter hmid hothers rfl)

end Reckoner.Parser
