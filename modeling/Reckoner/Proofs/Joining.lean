import Mathlib.Algebra.Group.Nat.Even
import Reckoner.Proofs.Parser.Language
import Reckoner.Proofs.Places
import Reckoner.Proofs.Printing

/-!
# Sources one below the other

A newline ends every lexeme but a string, and statements need no separator. So two programs that are
written one below the other are parsed as the statements of the first and then those of the second,
further down, unless the first leaves a string open or the second begins with a sign.

* `Splits.extend` — the pieces of a source stay its pieces with another line below it;
* `Position.down` — a place some lines further down;
* `Splits.newline`, `Splits.tokensFrom_newline` — the pieces and tokens of both sources;
* `Reads.append` — statements read one after another;
* `Program.ofSource_lines` — both sources parsed at once.
-/

namespace Reckoner

open Text

/-! ## Pieces and newlines -/

/-- The character is in no lexeme but a string. -/
def StringOnly (c : Char) : Prop :=
  isNumberPart c = false ∧ isWordStart c = false ∧ isWordPart c = false ∧
    ∀ entry ∈ operatorKinds, c ∉ entry.1

theorem stringOnly_newline : StringOnly '\n' := by
  unfold StringOnly
  decide

theorem stringOnly_quote : StringOnly '"' := by
  unfold StringOnly
  decide

theorem Lexeme.not_mem_of_stringOnly {cls : LexClass} {text : List Char} {kind : Kind}
    {literal : String} {c : Char} (h : Lexeme cls text kind literal) (hcls : cls ≠ .string)
    (hc : StringOnly c) : c ∉ text := by
  intro hmem
  rcases hc with ⟨hnumber, hstart, hpart, hoperator⟩
  -- Every class but strings says what its characters are.
  cases cls with
  | number => simpa [hnumber] using h.number_parts.1 c hmem
  | word =>
      cases h with
      | word hfirst hrest _ =>
          rcases List.mem_cons.1 hmem with rfl | hmem
          · simp [hstart] at hfirst
          · simpa [hpart] using hrest c hmem
  | operator =>
      cases h with
      | operator hop => exact hoperator _ hop hmem
  | string => exact hcls rfl

/-- A longest lexeme stays one when the source goes on behind a newline. -/
theorem Longest.extend {cls : LexClass} {text cs : List Char} {kind : Kind} {literal : String}
    (hlex : Lexeme cls text kind literal) (hlong : Longest cls text cs) (more : List Char) :
    Longest cls text (cs ++ '\n' :: more) := by
  by_cases hcls : cls = .string
  · subst hcls
    cases hlex
    exact longest_string
  · intro tail hne hpre kind' literal' hlonger
    have hnewline : '\n' ∉ tail := by
      intro hmem
      exact hlonger.not_mem_of_stringOnly hcls stringOnly_newline (List.mem_append_right _ hmem)
    -- A beginning of the longer source that has no newline is one of the source itself.
    have hline : cs ++ ['\n'] <+: cs ++ '\n' :: more := ⟨more, by simp⟩
    rcases List.prefix_or_prefix_of_prefix hpre hline with hshort | hover
    · rcases List.prefix_concat_iff.1 hshort with rfl | hshort
      · exact hnewline (by simp)
      · exact hlong tail hne hshort kind' literal' hlonger
    · exact hnewline (hover.subset (by simp))

/-- The number of quotes in a lexeme is even: strings have two, the others none. -/
theorem Lexeme.even_quotes {cls : LexClass} {text : List Char} {kind : Kind} {literal : String}
    (h : Lexeme cls text kind literal) : Even (text.count '"') := by
  by_cases hcls : cls = .string
  · subst hcls
    cases h with
    | @string body hbody =>
        have htwo : ('"' :: body ++ ['"']).count '"' = 2 := by
          simp [List.count_append, List.count_eq_zero.2 hbody]
        rw [htwo]
        decide
  · rw [List.count_eq_zero.2 (h.not_mem_of_stringOnly hcls stringOnly_quote)]
    exact Even.zero

/-- With an even number of quotes no string is left open, and the source can go on below. -/
theorem Splits.extend {source : List Char} {segments : List Segment}
    (h : Splits source segments []) (hquotes : Even (source.count '"')) (more : List Char) :
    Splits (source ++ '\n' :: more) segments ('\n' :: more) := by
  generalize hend : ([] : List Char) = rest at h
  induction h with
  | done =>
      subst hend
      exact .done
  | @blank c cs _ _ hblank _ ih =>
      have hc : c ≠ '"' := by
        rintro rfl
        exact absurd hblank (by decide)
      rw [List.count_cons_of_ne hc] at hquotes
      exact .blank hblank (ih hquotes hend)
  | @lexeme _ text cs _ _ _ _ hlex hlong _ ih =>
      rw [List.count_append] at hquotes
      have hrest : Even (cs.count '"') := (Nat.even_add.1 hquotes).1 hlex.even_quotes
      rw [List.append_assoc]
      exact .lexeme hlex (hlong.extend hlex more) (ih hrest hend)
  -- An open string would have one quote alone, and the pieces before it an even number.
  | unclosed hbody =>
      rw [List.count_cons_self, List.count_eq_zero.2 hbody] at hquotes
      exact absurd hquotes (by decide)

/-! ## Places further down -/

/-- The place some lines further down. -/
def Position.down (lines : Nat) (p : Position) : Position :=
  ⟨p.line + lines, p.column⟩

theorem Position.past_down (lines : Nat) (p : Position) (text : List Char) :
    (p.down lines).past text = (p.past text).down lines := by
  induction text generalizing p with
  | nil => rfl
  | cons c text ih =>
      have hnext : (p.down lines).next c = (p.next c).down lines := by
        by_cases hc : c = '\n'
        · simp [Position.next, Position.down, hc]
          omega
        · simp [Position.next, Position.down, hc]
      change ((p.down lines).next c).past text = _
      rw [hnext, ih]
      rfl

theorem Segment.tokensFrom_down (lines : Nat) (p : Position) (segments : List Segment) :
    Segment.tokensFrom (p.down lines) segments =
      (Segment.tokensFrom p segments).map (Token.mapPos (Position.down lines)) := by
  induction segments generalizing p with
  | nil => rfl
  | cons segment segments ih =>
      cases segment <;> simp [Segment.tokensFrom, Position.past_down, ih, Token.mapPos]

theorem Segment.tokensFrom_append (p : Position) (segments others : List Segment) :
    Segment.tokensFrom p (segments ++ others) =
      Segment.tokensFrom p segments ++
        Segment.tokensFrom (p.past (segments.flatMap Segment.text)) others := by
  induction segments generalizing p with
  | nil => rfl
  | cons segment segments ih =>
      cases segment <;> simp [Segment.tokensFrom, Segment.text, ih, Position.past]

/-- The line below a text begins as many lines down as the text has newlines, and one more. -/
theorem Position.start_past_newline (text : List Char) :
    (Position.start.past text).past ['\n'] = Position.start.down (text.count '\n' + 1) := by
  rw [Position.start_past]
  simp [Position.past, Position.next, Position.afterText, Position.start, Position.down]
  omega

/-! ## A source below another -/

/-- The pieces of both sources, when the first leaves no string open: the newline between them is a
blank of its own. -/
theorem Splits.newline {a b rest : List Char} {as bs : List Segment} (ha : Splits a as [])
    (hquotes : Even (a.count '"')) (hb : Splits b bs rest) :
    Splits (a ++ '\n' :: b) (as ++ .blank '\n' :: bs) rest :=
  (ha.extend hquotes b).append (.blank (by decide) hb)

/-- The tokens of both sources: those of the second are further down. -/
theorem Splits.tokensFrom_newline {a : List Char} {as : List Segment} (ha : Splits a as [])
    (bs : List Segment) :
    Segment.tokensFrom .start (as ++ .blank '\n' :: bs) =
      Segment.tokensFrom .start as ++
        (Segment.tokensFrom .start bs).map (Token.mapPos (Position.down (a.count '\n' + 1))) := by
  calc
    Segment.tokensFrom .start (as ++ .blank '\n' :: bs)
        = Segment.tokensFrom .start as ++
            Segment.tokensFrom ((Position.start.past a).past ['\n']) bs := by
          rw [Segment.tokensFrom_append, ha.text_eq]
          rfl
    _ = Segment.tokensFrom .start as ++ (Segment.tokensFrom .start bs).map
          (Token.mapPos (Position.down (a.count '\n' + 1))) := by
        rw [Position.start_past_newline, Segment.tokensFrom_down]

/-! ## Statements one after another -/

theorem Reads.append {limit d : Nat} {es es' : List Expr} {ts us : List Token}
    (h : Reads limit d .statements es ts) (h' : Reads limit d .statements es' us)
    (hsign : ∀ t ∈ us.head?, t.isSign = false) :
    Reads limit d .statements (es ++ es') (ts ++ us) := by
  induction es generalizing ts with
  | nil =>
      cases h
      exact h'
  | cons e es ih =>
      cases h with
      | @cons _ _ _ first rest hnext hfirst hrest =>
          rw [List.append_assoc, List.cons_append]
          refine .cons ?_ hfirst (ih hrest)
          -- Behind the last statement of the first list come those of the second.
          cases rest with
          | nil => exact hsign
          | cons t rest => exact hnext

/-- The first token of a source is no sign. -/
def BeginsUnsigned (source : List Char) : Prop :=
  ∀ t ts, Token.scan source = .ok (t :: ts) → t.kind ≠ .plus ∧ t.kind ≠ .minus

theorem BeginsUnsigned.tokens {source : List Char} {segments : List Segment}
    (h : BeginsUnsigned source) (hsplits : Splits source segments []) :
    ∀ t ∈ (Segment.tokensFrom .start segments).head?, t.isSign = false := by
  cases htokens : Segment.tokensFrom .start segments with
  | nil => simp
  | cons u us =>
      have hscan := Token.scan_of_splits hsplits
      rw [htokens, List.cons_append] at hscan
      exact Parser.forall_mem_head?_cons (by simpa [Token.isSign] using h u _ hscan)

/-- Two sources, the second below the first, are parsed as both programs, the second further down.
-/
theorem Program.ofSource_lines {limit : Nat} {a b : List Char} {first second : Program}
    (ha : Program.ofSource limit a = .ok first) (hb : Program.ofSource limit b = .ok second)
    (hquotes : Even (a.count '"')) (hsign : BeginsUnsigned b) :
    Program.ofSource limit (a ++ '\n' :: b) =
      .ok (first ++ second.map (Expr.mapPos (Position.down (a.count '\n' + 1)))) := by
  rcases Program.ofSource_eq_ok_iff.1 ha with ⟨as, hasplits, hareads⟩
  rcases Program.ofSource_eq_ok_iff.1 hb with ⟨bs, hbsplits, hbreads⟩
  refine Program.ofSource_eq_ok_iff.2 ⟨_, hasplits.newline hquotes hbsplits, ?_⟩
  rw [hasplits.tokensFrom_newline]
  refine hareads.append (hbreads.mapPos _) ?_
  intro t ht
  rw [List.head?_map] at ht
  rcases Option.map_eq_some_iff.1 ht with ⟨u, hu, rfl⟩
  exact hsign.tokens hbsplits u hu

end Reckoner
