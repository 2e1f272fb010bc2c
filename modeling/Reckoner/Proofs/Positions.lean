import Reckoner.Proofs.NotStuck
import Reckoner.Proofs.Parser.Faults

/-!
# The places of faults

Every fault of a run is reported at a place in a source: a fault of the scan where it stopped, one
of the parser at a token, and one of evaluation at a spot of tokens. A number keeps the place of its
numeral as long as it is bound, so the source need not be the one that is run.

* `Position.IsPlace` — line and column count from one;
* `Token.scan_places`, `Program.ofSource_fault` — tokens, and sources that cannot be read;
* `Run`, `Session.after` — runs one after another;
* `Session.run_placed`, `Session.after_origins` — one run, and all runs of a session;
* `Session.faults_placed` — the faults of a session.
-/

namespace Reckoner

/-! ## Places in a source -/

/-- Line and column count from one. -/
def Position.IsPlace (p : Position) : Prop :=
  1 ≤ p.line ∧ 1 ≤ p.column

namespace Position.IsPlace

theorem start : Position.start.IsPlace := by
  simp [Position.IsPlace, Position.start]

theorem next {p : Position} (h : p.IsPlace) (c : Char) : (p.next c).IsPlace := by
  unfold Position.next
  have ⟨hline, hcolumn⟩ := h
  split
  · exact ⟨Int.le_add_one hline, Int.le_refl 1⟩
  · exact ⟨hline, Int.le_add_one hcolumn⟩

theorem past {p : Position} (h : p.IsPlace) (text : List Char) : (p.past text).IsPlace := by
  induction text generalizing p with
  | nil => exact h
  | cons c cs ih => exact ih (h.next c)

theorem isKnown {p : Position} (h : p.IsPlace) : p.isKnown := by
  simpa [Position.isKnown] using Int.lt_of_lt_of_le Int.zero_lt_one h.1

end Position.IsPlace

/-! ## Sources -/

/-- Only a scan reports causes of this class. -/
theorem Stands.code_of_bad {source taken rest : List Char} {cause : Cause}
    (h : Stands source ⟨.bad cause, taken, rest⟩) : cause.code = .lexical := by
  cases h with
  | loneBang _ => rfl
  | stray _ _ => rfl

/-- The tokens of a source stand at places in it, and so does what no token can be made of. -/
theorem Token.scanFrom_places {p : Position} (hp : p.IsPlace) {read : List Token}
    (hread : ∀ t ∈ read, t.pos.IsPlace) (source : List Char) :
    (∀ tokens, Token.scanFrom p read source = .ok tokens → ∀ t ∈ tokens, t.pos.IsPlace) ∧
      ∀ fault, Token.scanFrom p read source = .error fault →
        fault.pos.IsPlace ∧ fault.code = .lexical := by
  -- Piece after piece: each begins at a place, and so does what comes after it.
  fun_induction Token.scanFrom p read source with
  | case1 p read =>
      refine ⟨?_, fun fault h => absurd h (by simp)⟩
      intro tokens h
      cases h
      simpa [or_imp, forall_and] using ⟨hread, hp⟩
  | case2 p read c cs here hrest kind literal hpiece ih =>
      refine ih (hp.past _) ?_
      exact List.forall_mem_cons.2 ⟨hp.past _, hread⟩
  | case3 p read c cs here hrest cause hpiece =>
      refine ⟨fun tokens h => absurd h (by simp), ?_⟩
      intro fault h
      cases h
      have hstands : Stands (c :: cs) ⟨here.piece, here.taken, here.rest⟩ := stands_cut c cs
      rw [hpiece] at hstands
      exact ⟨hp, hstands.code_of_bad⟩
  | case4 p read c cs here hrest hpiece ih => exact ih (hp.past _) hread
  | case5 p read c cs here hrest hpiece ih => exact ih (hp.past _) hread

theorem Token.scan_places {source : List Char} {tokens : List Token}
    (h : Token.scan source = .ok tokens) : ∀ t ∈ tokens, t.pos.IsPlace :=
  (Token.scanFrom_places .start (by simp) source).1 tokens h

/-- A source that cannot be read has a fault at a place in it, and at a token of it unless the scan
has failed. -/
theorem Program.ofSource_fault {limit : Nat} {source : List Char} {fault : Fault}
    (h : Program.ofSource limit source = .error fault) :
    fault.pos.IsPlace ∧ (fault.code ≠ .lexical →
      ∃ tokens, Token.scan source = .ok tokens ∧ ∃ t ∈ tokens, t.pos = fault.pos) := by
  unfold Program.ofSource at h
  cases hscan : Token.scan source with
  | error lexical =>
      rw [hscan] at h
      cases h
      have hfault := (Token.scanFrom_places .start (by simp) source).2 _ hscan
      exact ⟨hfault.1, fun hcode => absurd hfault.2 hcode⟩
  | ok tokens =>
      rw [hscan] at h
      obtain ⟨segments, -, htokens⟩ := Token.scan_eq_ok_iff.1 hscan
      have hat : ∃ t ∈ tokens, t.pos = fault.pos := by
        subst htokens
        exact Program.fault_at_token rfl h
      refine ⟨?_, fun _ => ⟨tokens, rfl, hat⟩⟩
      rcases hat with ⟨t, ht, hpos⟩
      exact hpos ▸ Token.scan_places hscan t ht

/-! ## Runs one after another -/

/-- A source that is run, with its limits and its context. -/
structure Run where
  limits : Limits
  ctx : Context
  source : List Char

/-- The tokens of the source; none when it cannot be scanned. -/
def Run.tokens (run : Run) : List Token :=
  (Token.scan run.source).toOption.getD []

theorem Run.tokens_of_scan {run : Run} {tokens : List Token}
    (h : Token.scan run.source = .ok tokens) : run.tokens = tokens := by
  simp [Run.tokens, h, Except.toOption]

theorem Run.tokens_places (run : Run) : ∀ t ∈ run.tokens, t.pos.IsPlace := by
  cases hscan : Token.scan run.source with
  | error fault => simp [Run.tokens, hscan, Except.toOption]
  | ok tokens => exact Run.tokens_of_scan hscan ▸ Token.scan_places hscan

/-- The session after some runs. -/
def Session.after (s : Session) (runs : List Run) : Session :=
  runs.foldl (fun s run => (s.run run.limits run.ctx run.source).2) s

/-- The position is no place in a source, or that of a numeral. -/
def NumeralOrNowhere (tokens : List Token) (p : Position) : Prop :=
  p.isKnown = false ∨ ∃ t ∈ tokens, t.IsNumeral ∧ t.pos = p

theorem NumeralOrNowhere.mono {tokens others : List Token} {p : Position}
    (h : NumeralOrNowhere tokens p) (hsub : tokens ⊆ others) : NumeralOrNowhere others p :=
  h.imp_right fun ⟨t, ht, hnumeral⟩ => ⟨t, hsub ht, hnumeral⟩

theorem coversNumerals_self (tokens : List Token) :
    CoversNumerals (NumeralOrNowhere tokens) tokens :=
  ⟨.inl rfl, fun t ht hnumeral => .inr ⟨t, ht, hnumeral, rfl⟩⟩

/-- What is reported at a spot of tokens or at a known origin is at a spot of tokens. -/
theorem Reported.spot {tokens : List Token} {p : Position}
    (h : Reported tokens (NumeralOrNowhere tokens) p) : Spot tokens p := by
  rcases h with hspot | ⟨hknown, hnowhere | ⟨t, ht, -, hpos⟩⟩
  · exact hspot
  · rw [hnowhere] at hknown
    cases hknown
  · exact spot_of_token ⟨t, ht, hpos⟩

theorem Spot.isPlace {tokens : List Token} {p : Position} (h : Spot tokens p)
    (hplaces : ∀ t ∈ tokens, t.pos.IsPlace) : p.IsPlace := by
  rcases h with ⟨⟨t, ht, hline⟩, u, hu, hcolumn⟩
  exact ⟨hline ▸ (hplaces t ht).1, hcolumn ▸ (hplaces u hu).2⟩

/-- One run: its faults are at places, those after the scan at spots of tokens, and what it binds
comes from a numeral of its source, or from what was bound before. -/
theorem Session.run_placed {earlier : List Token} (hplaces : ∀ t ∈ earlier, t.pos.IsPlace)
    {s : Session} (henv : s.env.Origins (NumeralOrNowhere earlier)) (run : Run) :
    (∀ fault, (s.run run.limits run.ctx run.source).1.outcome = .error (.fault fault) →
        fault.pos.IsPlace ∧
          (fault.code ≠ .lexical → Spot (earlier ++ run.tokens) fault.pos)) ∧
      (s.run run.limits run.ctx run.source).2.env.Origins
        (NumeralOrNowhere (earlier ++ run.tokens)) := by
  have henv : s.env.Origins (NumeralOrNowhere (earlier ++ run.tokens)) :=
    henv.mono fun p hp => hp.mono (List.subset_append_left _ _)
  rw [Session.run]
  cases hparse : Program.ofSource run.limits.depth run.source with
  | error fault =>
      refine ⟨?_, henv⟩
      intro other hother
      cases hother
      rcases Program.ofSource_fault hparse with ⟨hplace, hat⟩
      refine ⟨hplace, ?_⟩
      intro hcode
      rcases hat hcode with ⟨tokens, hscan, htoken⟩
      rw [Run.tokens_of_scan hscan]
      exact (spot_of_token htoken).mono (List.subset_append_right _ _)
  | ok program =>
      rcases Program.isFrom hparse with ⟨tokens, hscan, hparts⟩
      rw [Run.tokens_of_scan hscan] at henv ⊢
      have hsub : tokens ⊆ earlier ++ tokens := List.subset_append_right _ _
      obtain ⟨-, hhalts, hafter⟩ := Session.exec_regular (coversNumerals_self (earlier ++ tokens))
        (fun part hpart => (hparts part hpart).mono hsub) run.limits run.ctx henv
      refine ⟨?_, hafter⟩
      intro fault hfault
      have hspot := (hhalts _ hfault).2.spot
      refine ⟨hspot.isPlace ?_, fun _ => hspot⟩
      exact List.forall_mem_append.2 ⟨hplaces, Token.scan_places hscan⟩

/-! ## Sessions -/

/-- The built-in names and the given ones are bound without a place. -/
theorem Session.start_origins (globals : Bindings Number) :
    (Session.start globals).env.Origins (NumeralOrNowhere []) := by
  have hset {env : Environment} (henv : env.Origins (NumeralOrNowhere [])) (name : String)
      (n : Number) : (env.set name ⟨n, .nowhere⟩).Origins (NumeralOrNowhere []) :=
    henv.set name (.inl rfl)
  have hglobal : Environment.global.Origins (NumeralOrNowhere []) := by
    refine hset (hset (hset ?_ _ _) _ _) _ _
    simp [Environment.Origins, Environment.empty, Environment.frames]
  unfold Session.start
  dsimp only
  generalize Environment.global = env at hglobal
  induction globals generalizing env with
  | nil => exact hglobal
  | cons binding rest ih => exact ih _ (hset hglobal _ _)

/-- All runs of a session: what is bound comes from numerals of their sources. -/
theorem Session.after_origins {earlier : List Token} (hplaces : ∀ t ∈ earlier, t.pos.IsPlace)
    {s : Session} (henv : s.env.Origins (NumeralOrNowhere earlier)) (runs : List Run) :
    (s.after runs).env.Origins (NumeralOrNowhere (earlier ++ runs.flatMap Run.tokens)) := by
  induction runs generalizing s earlier with
  | nil => simpa [Session.after] using henv
  | cons run rest ih =>
      have hrun := (Session.run_placed hplaces henv run).2
      have hrest := ih (List.forall_mem_append.2 ⟨hplaces, run.tokens_places⟩) hrun
      simpa [Session.after, List.append_assoc] using hrest

/-- Faults of a session, whatever is bound at its start and whatever is run in it. The fault of a
run is at a place in a source; unless the scan has failed, its line is that of a token and its
column that of a token, of the sources run so far. Every number that is bound when the run begins
has no place, or exactly that of a numeral of the sources run before. -/
theorem Session.faults_placed (globals : Bindings Number) (past : List Run) (next : Run) :
    let s := (Session.start globals).after past
    let tokens := (past ++ [next]).flatMap Run.tokens
    (∀ fault, (s.run next.limits next.ctx next.source).1.outcome = .error (.fault fault) →
        1 ≤ fault.pos.line ∧ 1 ≤ fault.pos.column ∧
          (fault.code ≠ .lexical → (∃ t ∈ tokens, t.pos.line = fault.pos.line) ∧
            ∃ t ∈ tokens, t.pos.column = fault.pos.column)) ∧
      ∀ frame ∈ s.env.frames, ∀ binding ∈ frame, binding.2.origin.isKnown = false ∨
        ∃ t ∈ past.flatMap Run.tokens, (t.kind = .int ∨ t.kind = .float) ∧
          t.pos = binding.2.origin := by
  intro s tokens
  have horigins : s.env.Origins (NumeralOrNowhere (past.flatMap Run.tokens)) :=
    Session.after_origins (by simp) (Session.start_origins globals) past
  have hplaces : ∀ t ∈ past.flatMap Run.tokens, t.pos.IsPlace := by
    intro t ht
    rcases List.mem_flatMap.1 ht with ⟨run, -, ht⟩
    exact run.tokens_places t ht
  refine ⟨?_, horigins⟩
  intro fault hfault
  have ⟨hplace, hspot⟩ := (Session.run_placed hplaces horigins next).1 fault hfault
  refine ⟨hplace.1, hplace.2, ?_⟩
  simpa [tokens, Spot] using hspot

/-- Zero is bound in one run and divides in the next: the fault is where the zero was written, and
the second source has no token in that column. -/
theorem Session.faults_placed_earlier_source :
    let past : Run := ⟨{}, {}, ['x', ' ', '=', ' ', '0']⟩
    let next : Run := ⟨{}, {}, ['1', '/', 'x']⟩
    let s := (Session.start []).after [past]
    let fault : Fault := ⟨.divisionByZero, ⟨1, 5⟩⟩
    (s.run next.limits next.ctx next.source).1.outcome = .error (.fault fault) ∧
      (1 ≤ fault.pos.line ∧ 1 ≤ fault.pos.column) ∧
      (∃ t ∈ past.tokens ++ next.tokens, t.pos.column = fault.pos.column) ∧
      ∀ t ∈ next.tokens, t.pos.column ≠ fault.pos.column := by
  intro past next s fault
  have hname : Lexeme .word ['x'] .identifier "x" := .word (by decide) (by simp) rfl
  have hwhole {rest : List Char} (hrest : HeadFails Text.isWordPart rest) :
      Longest .word ['x'] rest :=
    (longest_word_iff (by decide) (by simp)).2 hrest
  have hpast : Splits past.source [.lexeme ['x'] .identifier "x", .blank ' ',
      .lexeme ['='] .assign "=", .blank ' ', .lexeme ['0'] .int "0"] [] := by
    refine .lexeme hname (hwhole (headFails_cons.2 (by decide))) (.blank (by decide) ?_)
    refine .lexeme (.operator (by decide)) (longest_operator (by decide)) (.blank (by decide) ?_)
    exact .digit (by decide) (headFails_nil _) .done
  have hnext : Splits next.source [.lexeme ['1'] .int "1", .lexeme ['/'] .div "/",
      .lexeme ['x'] .identifier "x"] [] := by
    refine .digit (by decide) (headFails_cons.2 (by decide)) ?_
    refine .lexeme (.operator (by decide)) (longest_operator (by decide)) ?_
    exact .lexeme hname (hwhole (headFails_nil _)) .done
  have hfirst : Program.ofSource 512 past.source =
      .ok [.assign "x" ⟨1, 1⟩ (.num (.int 0) ⟨1, 5⟩)] := by
    rw [Program.ofSource, Token.scan_of_splits hpast]
    exact Program.ofTokens_of_walk rfl
  have hsecond : Program.ofSource 512 next.source =
      .ok [.binary ⟨.div, "/"⟩ (.num (.int 1) ⟨1, 1⟩) (.var "x" ⟨1, 3⟩)] := by
    rw [Program.ofSource, Token.scan_of_splits hnext]
    exact Program.ofTokens_of_walk rfl
  have houtcome : (s.run next.limits next.ctx next.source).1.outcome = .error (.fault fault) := by
    simp only [s, Session.after, List.foldl_cons, List.foldl_nil]
    rw [Session.run, Session.run, hfirst, hsecond]
    rfl
  rcases (Session.faults_placed [] [past] next).1 fault houtcome with ⟨hline, hcolumn, hspot⟩
  refine ⟨houtcome, ⟨hline, hcolumn⟩, by simpa using (hspot (by decide)).2, ?_⟩
  rw [Run.tokens_of_scan (Token.scan_of_splits hnext)]
  decide

end Reckoner
