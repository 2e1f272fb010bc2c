import Mathlib.Data.List.Induction
import Reckoner.Proofs.Lexeme

/-!
# Sources and their pieces

A source that is scanned without a fault is made of pieces, one after another: blanks, longest
lexemes, and perhaps at its end a string that is never closed. The pieces are determined by the
source, the lexemes among them are its tokens, and positions are counted from the characters before.

* `Segment`, `Splits` — the pieces, and how a source is made of them;
* `Blocked`, `Splits.unique_of_blocked` — where no piece stands, and that a source is split up to
  there in one way;
* `Position.afterText` — a position by counting newlines;
* `Token.scanFrom_of_splits`, `Token.scan_eq_ok_iff` — a scan goes through the pieces, and answers
  with their tokens exactly when they are the whole source;
* `Token.scan_lossless` — tokens, positions and pieces of a whole source.
-/

namespace Reckoner

open Text

/-- A piece of a source. -/
inductive Segment where
  | blank (c : Char)
  | lexeme (text : List Char) (kind : Kind) (literal : String)
  /-- A quote and all that follows it. -/
  | unclosed (body : List Char)

/-- The characters of a piece. -/
def Segment.text : Segment → List Char
  | .blank c => [c]
  | .lexeme text _ _ => text
  | .unclosed body => '"' :: body

/-- The source begins with the pieces and goes on with the rest. -/
inductive Splits : List Char → List Segment → List Char → Prop where
  | done {rest : List Char} : Splits rest [] rest
  | blank {c : Char} {cs rest : List Char} {segments : List Segment} :
      isBlank c → Splits cs segments rest → Splits (c :: cs) (.blank c :: segments) rest
  | lexeme {cls : LexClass} {text cs rest : List Char} {kind : Kind} {literal : String}
      {segments : List Segment} :
      Lexeme cls text kind literal → Longest cls text cs → Splits cs segments rest →
        Splits (text ++ cs) (.lexeme text kind literal :: segments) rest
  | unclosed {body : List Char} : '"' ∉ body → Splits ('"' :: body) [.unclosed body] []

theorem Splits.flatMap_text {source rest : List Char} {segments : List Segment}
    (h : Splits source segments rest) : segments.flatMap Segment.text ++ rest = source := by
  induction h with
  | done => rfl
  | blank _ _ ih => simp [Segment.text, ← ih]
  | lexeme _ _ _ ih => simp [Segment.text, ← ih]
  | unclosed _ => simp [Segment.text]

theorem Splits.text_eq {source : List Char} {segments : List Segment}
    (h : Splits source segments []) : segments.flatMap Segment.text = source := by
  simpa using h.flatMap_text

/-- A digit that does not go on as a number. -/
theorem Splits.digit {c : Char} {cs rest : List Char} {segments : List Segment} (hc : isDigit c)
    (hend : HeadFails isNumberPart cs) (h : Splits cs segments rest) :
    Splits (c :: cs) (.lexeme [c] .int (String.ofList [c]) :: segments) rest := by
  have hdigits : ∀ d ∈ [c], isDigit d := List.forall_mem_singleton.2 hc
  exact .lexeme (.integer (by simp) hdigits) ((longest_integer_iff (by simp) hdigits).2 hend) h

/-! ## The pieces are determined -/

theorem not_stands_nil (k : Cut) : ¬ Stands [] k := by
  intro h
  generalize hnil : ([] : List Char) = source at h
  cases h with
  | lexeme hlex _ => exact absurd (List.append_eq_nil_iff.1 hnil.symm).1 hlex.ne_nil
  | _ => cases hnil

theorem Stands.unique {source : List Char} {k k' : Cut} (h : Stands source k)
    (h' : Stands source k') : k = k' := by
  cases source with
  | nil => exact absurd h (not_stands_nil k)
  | cons c cs => rw [← cut_eq_of_stands h, cut_eq_of_stands h']

/-- The piece as it is cut off a source, with what is left behind it. -/
def Segment.cut : Segment → List Char → Cut
  | .blank c, rest => ⟨.blank, [c], rest⟩
  | .lexeme text kind literal, rest => ⟨.lexeme kind literal, text, rest⟩
  | .unclosed body, rest => ⟨.openString, '"' :: body, rest⟩

theorem Segment.cut_inj {segment other : Segment} {rest rest' : List Char}
    (h : segment.cut rest = other.cut rest') : segment = other ∧ rest = rest' := by
  cases segment <;> cases other <;> simp_all [Segment.cut]

/-- The first piece stands at the head of the source. -/
theorem Splits.stands {source rest : List Char} {segment : Segment} {segments : List Segment}
    (h : Splits source (segment :: segments) rest) :
    ∃ mid, Stands source (segment.cut mid) ∧ Splits mid segments rest := by
  cases h with
  | blank hblank hsplit => exact ⟨_, .blank hblank, hsplit⟩
  | lexeme hlex hlong hsplit => exact ⟨_, .lexeme hlex hlong, hsplit⟩
  | unclosed hbody => exact ⟨[], .openString hbody, .done⟩

/-- No piece of a source stands here: it is at its end, or scanning fails. -/
def Blocked (rest : List Char) : Prop :=
  ∀ k, Stands rest k → ∃ cause, k.piece = .bad cause

theorem blocked_nil : Blocked [] :=
  fun k h => absurd h (not_stands_nil k)

theorem blocked_of_bad {source taken rest : List Char} {cause : Cause}
    (h : Stands source ⟨.bad cause, taken, rest⟩) : Blocked source :=
  fun _ hk => ⟨cause, congrArg Cut.piece (hk.unique h)⟩

theorem Blocked.not_stands {rest mid : List Char} {segment : Segment} (h : Blocked rest) :
    ¬ Stands rest (segment.cut mid) := by
  intro hstands
  obtain ⟨cause, hbad⟩ := h _ hstands
  cases segment <;> cases hbad

/-- A source is split in one way as far as it can be. -/
theorem Splits.unique_of_blocked {source rest rest' : List Char} {segments others : List Segment}
    (h : Splits source segments rest) (h' : Splits source others rest') (hend : Blocked rest)
    (hend' : Blocked rest') : segments = others ∧ rest = rest' := by
  -- Both ways to split begin with what stands at the head, and that is one thing only.
  induction segments generalizing source others with
  | nil =>
      cases h
      cases others with
      | nil =>
          cases h'
          exact ⟨rfl, rfl⟩
      | cons other others =>
          obtain ⟨mid, hstands, -⟩ := h'.stands
          exact absurd hstands hend.not_stands
  | cons segment segments ih =>
      obtain ⟨mid, hstands, hsplit⟩ := h.stands
      cases others with
      | nil =>
          cases h'
          exact absurd hstands hend'.not_stands
      | cons other others =>
          obtain ⟨mid', hstands', hsplit'⟩ := h'.stands
          obtain ⟨rfl, rfl⟩ := Segment.cut_inj (hstands.unique hstands')
          obtain ⟨rfl, rfl⟩ := ih hsplit hsplit'
          exact ⟨rfl, rfl⟩

theorem Splits.unique {source : List Char} {segments others : List Segment}
    (h : Splits source segments []) (h' : Splits source others []) : segments = others :=
  (h.unique_of_blocked h' blocked_nil blocked_nil).1

/-- Every source is split as far as it can be. -/
theorem Splits.exists_blocked (source : List Char) :
    ∃ segments rest, Splits source segments rest ∧ Blocked rest := by
  -- Every piece has a character, so what is left gets shorter.
  induction hn : source.length using Nat.strong_induction_on generalizing source with
  | _ n ih =>
      cases source with
      | nil => exact ⟨[], [], .done, blocked_nil⟩
      | cons c cs =>
          have hstands := stands_cut c cs
          generalize cut c cs = k at hstands
          generalize hsource : c :: cs = source at hn hstands
          cases hstands with
          | @blank c cs hblank =>
              obtain ⟨segments, rest, hsplit, hend⟩ := ih cs.length (by simp [← hn]) cs rfl
              exact ⟨_, rest, .blank hblank hsplit, hend⟩
          | @lexeme _ text more _ _ hlex hlong =>
              have hlength := List.length_pos_iff.2 hlex.ne_nil
              have hshorter : more.length < n := by simp [← hn]; omega
              obtain ⟨segments, rest, hsplit, hend⟩ := ih more.length hshorter more rfl
              exact ⟨_, rest, .lexeme hlex hlong hsplit, hend⟩
          | openString hbody => exact ⟨_, [], .unclosed hbody, blocked_nil⟩
          | loneBang hend => exact ⟨[], _, .done, blocked_of_bad (.loneBang hend)⟩
          | stray hblank hnone => exact ⟨[], _, .done, blocked_of_bad (.stray hblank hnone)⟩

/-! ## Positions by counting -/

/-- The place of the character after a text at the beginning of a source: lines are counted by
newlines, columns by the characters since the last one. -/
def Position.afterText (text : List Char) : Position :=
  ⟨1 + text.count '\n', 1 + (text.reverse.takeWhile (· != '\n')).length⟩

theorem Position.past_append (p : Position) (first last : List Char) :
    p.past (first ++ last) = (p.past first).past last := by
  simp [Position.past, List.foldl_append]

theorem Position.start_past (text : List Char) :
    Position.start.past text = Position.afterText text := by
  -- By the last character: it alone decides whether a new line begins.
  induction text using List.reverseRecOn with
  | nil => rfl
  | append_singleton text c ih =>
      rw [Position.past_append, ih]
      by_cases hc : c = '\n'
      · simp [Position.past, Position.next, Position.afterText, hc]
        omega
      · simp [Position.past, Position.next, Position.afterText, hc]
        omega

/-! ## A scan goes through the pieces -/

/-- The tokens of pieces of which the first begins at `p`. -/
def Segment.tokensFrom : Position → List Segment → List Token
  | _, [] => []
  | p, .lexeme text kind literal :: rest =>
    ⟨kind, literal, p.past text.dropLast⟩ :: tokensFrom (p.past text) rest
  | p, segment :: rest => tokensFrom (p.past segment.text) rest

namespace Token

theorem scanFrom_nil (p : Position) (read : List Token) :
    scanFrom p read [] = .ok ((⟨.eof, "", p⟩ :: read).reverse) := by
  rw [scanFrom.eq_def]

theorem scanFrom_blank {p : Position} {read : List Token} {c : Char} {cs : List Char}
    (h : isBlank c) : scanFrom p read (c :: cs) = scanFrom (p.past [c]) read cs := by
  have hcut : cut c cs = ⟨.blank, [c], cs⟩ := cut_eq_of_stands (.blank h)
  rw [scanFrom.eq_def]
  simp only [hcut]

theorem scanFrom_lexeme {p : Position} {read : List Token} {cls : LexClass}
    {text rest : List Char} {kind : Kind} {literal : String}
    (hlex : Lexeme cls text kind literal) (hlong : Longest cls text rest) :
    scanFrom p read (text ++ rest) =
      scanFrom (p.past text) (⟨kind, literal, p.past text.dropLast⟩ :: read) rest := by
  cases text with
  | nil => exact absurd rfl hlex.ne_nil
  | cons c cs =>
      have hcut : cut c (cs ++ rest) = ⟨.lexeme kind literal, c :: cs, rest⟩ :=
        cut_eq_of_stands (.lexeme hlex hlong)
      rw [List.cons_append, scanFrom.eq_def]
      simp only [hcut]

theorem scanFrom_openString {p : Position} {read : List Token} {body : List Char}
    (h : '"' ∉ body) :
    scanFrom p read ('"' :: body) = scanFrom (p.past ('"' :: body)) read [] := by
  have hcut : cut '"' body = ⟨.openString, '"' :: body, []⟩ := cut_eq_of_stands (.openString h)
  rw [scanFrom.eq_def]
  simp only [hcut]

theorem scanFrom_bad {p : Position} {read : List Token} {c : Char} {cs taken rest : List Char}
    {cause : Cause} (h : Stands (c :: cs) ⟨.bad cause, taken, rest⟩) :
    scanFrom p read (c :: cs) = .error ⟨cause, p⟩ := by
  rw [scanFrom.eq_def]
  simp only [cut_eq_of_stands h]

/-- The run lemma: over pieces a scan collects their tokens and goes on after them. -/
theorem scanFrom_of_splits {source rest : List Char} {segments : List Segment}
    (h : Splits source segments rest) (p : Position) (read : List Token) :
    scanFrom p read source =
      scanFrom (p.past (segments.flatMap Segment.text))
        ((Segment.tokensFrom p segments).reverse ++ read) rest := by
  induction h generalizing p read with
  | done => rfl
  | blank hblank _ ih =>
      rw [scanFrom_blank hblank, ih]
      simp [Segment.tokensFrom, Segment.text, Position.past]
  | lexeme hlex hlong _ ih =>
      rw [scanFrom_lexeme hlex hlong, ih]
      simp [Segment.tokensFrom, Segment.text, Position.past]
  | unclosed hbody =>
      rw [scanFrom_openString hbody]
      simp [Segment.tokensFrom, Segment.text]

/-- Where no piece stands a scan fails. -/
theorem scanFrom_of_blocked {c : Char} {cs : List Char} (h : Blocked (c :: cs)) (p : Position)
    (read : List Token) : ∃ fault, scanFrom p read (c :: cs) = .error fault := by
  have hstands := stands_cut c cs
  obtain ⟨cause, hbad⟩ := h _ hstands
  rcases hcut : cut c cs with ⟨piece, taken, rest⟩
  rw [hcut] at hstands hbad
  cases hbad
  exact ⟨_, scanFrom_bad hstands⟩

/-- A scan without a fault has gone through pieces to the end. -/
theorem exists_splits {source : List Char} {p : Position} {read tokens : List Token}
    (h : scanFrom p read source = .ok tokens) : ∃ segments, Splits source segments [] := by
  obtain ⟨segments, rest, hsplit, hend⟩ := Splits.exists_blocked source
  cases rest with
  | nil => exact ⟨segments, hsplit⟩
  | cons c cs =>
      rw [scanFrom_of_splits hsplit] at h
      obtain ⟨fault, hfault⟩ := scanFrom_of_blocked hend _ _
      cases hfault.symm.trans h

/-- The tokens of a source with its closing one, when it is split as a whole. -/
theorem scan_of_splits {source : List Char} {segments : List Segment}
    (h : Splits source segments []) :
    scan source =
      .ok (Segment.tokensFrom .start segments ++ [⟨.eof, "", Position.start.past source⟩]) := by
  rw [scan, scanFrom_of_splits h, scanFrom_nil, h.text_eq]
  simp

/-- A scan without a fault answers with the tokens of the pieces. -/
theorem scan_eq_ok_iff {source : List Char} {tokens : List Token} :
    scan source = .ok tokens ↔ ∃ segments, Splits source segments [] ∧
      tokens = Segment.tokensFrom .start segments ++ [⟨.eof, "", Position.start.past source⟩] := by
  constructor
  · intro h
    obtain ⟨segments, hsplit⟩ := exists_splits h
    exact ⟨segments, hsplit, Except.ok.inj (h.symm.trans (scan_of_splits hsplit))⟩
  · rintro ⟨segments, hsplit, rfl⟩
    exact scan_of_splits hsplit

/-- The tokens of a source are closed by the end of input. -/
theorem exists_stop {source : List Char} {tokens : List Token} (h : scan source = .ok tokens) :
    ∃ ts stop, stop.kind = .eof ∧ tokens = ts ++ [stop] := by
  obtain ⟨segments, -, htokens⟩ := scan_eq_ok_iff.1 h
  exact ⟨_, _, rfl, htokens⟩

end Token

/-! ## Tokens, positions and pieces -/

/-- The tokens of pieces that stand after a text: each has the position of its last character, found
by counting in all that is before it. -/
def Segment.tokensAfter : (before : List Char) → List Segment → List Token
  | _, [] => []
  | before, .lexeme text kind literal :: rest =>
    ⟨kind, literal, .afterText (before ++ text.dropLast)⟩ :: tokensAfter (before ++ text) rest
  | before, segment :: rest => tokensAfter (before ++ segment.text) rest

theorem Segment.tokensFrom_start (before : List Char) (segments : List Segment) :
    tokensFrom (Position.start.past before) segments = tokensAfter before segments := by
  induction segments generalizing before with
  | nil => rfl
  | cons segment rest ih =>
      cases segment with
      | lexeme text kind literal =>
          rw [tokensFrom, tokensAfter, ← Position.past_append, ← Position.past_append, ih,
            Position.start_past]
      | blank c => rw [tokensFrom, tokensAfter, ← Position.past_append, ih] <;> simp
      | unclosed body => rw [tokensFrom, tokensAfter, ← Position.past_append, ih] <;> simp

/-- No lexeme stands for the end of input. -/
theorem Lexeme.kind_ne_eof {cls : LexClass} {text : List Char} {kind : Kind} {literal : String}
    (h : Lexeme cls text kind literal) : kind ≠ .eof := by
  cases h with
  | word _ _ _ =>
      intro heof
      have hmem := tableKind_mem literal
      simp [heof] at hmem
  | operator hmem =>
      rintro rfl
      simp [operatorKinds] at hmem
  | _ => simp

theorem Splits.kind_ne_eof {source rest : List Char} {segments : List Segment}
    (h : Splits source segments rest) (p : Position) :
    ∀ t ∈ Segment.tokensFrom p segments, t.kind ≠ .eof := by
  induction h generalizing p with
  | done => simp [Segment.tokensFrom]
  | blank _ _ ih => exact ih _
  | lexeme hlex _ _ ih =>
      intro t ht
      rcases List.mem_cons.1 ht with rfl | ht
      · exact hlex.kind_ne_eof
      · exact ih _ t ht
  | unclosed _ => simp [Segment.tokensFrom]

/-- Scanning loses nothing: a source without lexical faults is made of blanks, longest lexemes and
at most one string that is never closed, in one way only. Its tokens are the lexemes in order, each
at the place of its last character, closed by the one end-of-input token, which stands after the
source. -/
theorem Token.scan_lossless {source : List Char} {tokens : List Token}
    (h : Token.scan source = .ok tokens) :
    ∃ segments, Splits source segments [] ∧
      (∀ others, Splits source others [] → others = segments) ∧
      segments.flatMap Segment.text = source ∧
      tokens = Segment.tokensAfter [] segments ++ [⟨.eof, "", .afterText source⟩] ∧
      ∀ t ∈ Segment.tokensAfter [] segments, t.kind ≠ .eof := by
  rcases Token.exists_splits h with ⟨segments, hsplit⟩
  -- A scan moves its place along; counting in all that was read gives the same places.
  have hplaces := Segment.tokensFrom_start [] segments
  refine ⟨segments, hsplit, ?_, ?_, ?_, ?_⟩
  · intro others hothers
    exact hothers.unique hsplit
  · simpa using hsplit.flatMap_text
  · rw [Token.scan_of_splits hsplit, Position.start_past] at h
    rw [← hplaces]
    exact (Except.ok.inj h).symm
  · rw [← hplaces]
    exact hsplit.kind_ne_eof _

/-- Two keywords with capitals, of which one is an operator, and on the next line a string that is
never closed. -/
theorem Token.scan_lossless_capitals :
    let source := ['M', 'o', 'd', ' ', 'O', 'r', '\n', '"', 'b']
    ∃ segments, Splits source segments [] ∧
      (∀ others, Splits source others [] → others = segments) ∧
      segments.flatMap Segment.text = source ∧
      [⟨.mod, "mod", ⟨1, 3⟩⟩, ⟨.keyword, "or", ⟨1, 6⟩⟩, ⟨.eof, "", ⟨2, 3⟩⟩] =
        Segment.tokensAfter [] segments ++ [⟨.eof, "", .afterText source⟩] ∧
      ∀ t ∈ Segment.tokensAfter [] segments, t.kind ≠ .eof := by
  intro source
  have hodParts : ∀ c ∈ ['o', 'd'], isWordPart c := by
    rw [List.forall_mem_cons, List.forall_mem_singleton]
    decide
  have hrParts : ∀ c ∈ ['r'], isWordPart c := List.forall_mem_singleton.2 (by decide)
  have hmod : Lexeme .word ['M', 'o', 'd'] .mod "mod" := .word (by decide) hodParts rfl
  have hor : Lexeme .word ['O', 'r'] .keyword "or" := .word (by decide) hrParts rfl
  have hsplit : Splits source [.lexeme ['M', 'o', 'd'] .mod "mod", .blank ' ',
      .lexeme ['O', 'r'] .keyword "or", .blank '\n', .unclosed ['b']] [] := by
    refine .lexeme hmod ?_ (.blank (by decide) (.lexeme hor ?_ (.blank (by decide) ?_)))
    · exact (longest_word_iff (by decide) hodParts).2 (headFails_cons.2 (by decide))
    · exact (longest_word_iff (by decide) hrParts).2 (headFails_cons.2 (by decide))
    · exact .unclosed (by simp)
  have hscan : Token.scan source =
      .ok [⟨.mod, "mod", ⟨1, 3⟩⟩, ⟨.keyword, "or", ⟨1, 6⟩⟩, ⟨.eof, "", ⟨2, 3⟩⟩] :=
    Token.scan_of_splits hsplit
  exact Token.scan_lossless hscan

end Reckoner
