import Reckoner.Proofs.Splitting

/-!
# Where scanning fails

A source is scanned from the left, piece after piece. It fails at the first character that no piece
begins with: an exclamation mark that no equals sign follows, or a character that is neither blank
nor the first of any lexeme. A string that was opened is a piece up to its end, so such a character
stands outside strings. What comes behind it plays no part.

* `Unscannable` — a character that no piece begins with;
* `StopsAt` — the place in a source that scanning comes to and does not pass;
* `Longest.of_head?_eq`, `Splits.replace` — pieces look at one character behind them;
* `Token.scan_faults` — a scan fails exactly there, and how the fault is told.
-/

namespace Reckoner

open Text

/-! ## Characters that no piece begins with -/

/-- Nothing can be made of the character in front of these: it is an exclamation mark and no equals
sign follows it, or it is neither blank nor the first of any lexeme. -/
def Unscannable (c : Char) (after : List Char) : Prop :=
  (c = '!' ∧ after.head? ≠ some '=') ∨
    (isBlank c = false ∧ ∀ cls more kind literal, ¬ Lexeme cls (c :: more) kind literal)

/-- What goes wrong at a character that nothing can be made of. -/
def Cause.ofUnscannable (c : Char) : Cause :=
  if c = '!' then .loneBang else .strayCharacter c

namespace Unscannable

variable {c : Char} {after : List Char}

theorem stands (h : Unscannable c after) :
    Stands (c :: after) ⟨.bad (.ofUnscannable c), [c], after⟩ := by
  rcases h with ⟨rfl, hend⟩ | ⟨hblank, hnone⟩
  · exact .loneBang hend
  · have hbang : c ≠ '!' := by
      rintro rfl
      exact hnone .operator ['='] .notEqual _ (.operator (by decide))
    rw [Cause.ofUnscannable, if_neg hbang]
    exact .stray hblank hnone

/-- Of what follows the character only an equals sign behind an exclamation mark matters. -/
theorem replace (h : Unscannable c after) {other : List Char}
    (hother : c = '!' → other.head? ≠ some '=') : Unscannable c other :=
  h.imp_left fun ⟨hc, _⟩ => ⟨hc, hother hc⟩

end Unscannable

/-- No piece stands where there is a character that nothing can be made of, and only there. -/
theorem blocked_cons_iff {c : Char} {after : List Char} :
    Blocked (c :: after) ↔ Unscannable c after := by
  refine ⟨fun h => ?_, fun h => blocked_of_bad h.stands⟩
  have hstands := stands_cut c after
  obtain ⟨cause, hbad⟩ := h _ hstands
  generalize cut c after = k at hstands hbad
  generalize hsource : c :: after = source at hstands
  cases hstands with
  | loneBang hend =>
      obtain ⟨rfl, rfl⟩ := List.cons.inj hsource
      exact .inl ⟨rfl, hend⟩
  | stray hblank hnone =>
      obtain ⟨rfl, rfl⟩ := List.cons.inj hsource
      exact .inr ⟨hblank, hnone⟩
  | _ => cases hbad

/-! ## Pieces look at one character behind them -/

theorem HeadFails.of_head?_eq {p : Char → Bool} {rest other : List Char} (h : HeadFails p rest)
    (hhead : other.head? = rest.head?) : HeadFails p other :=
  fun c hc => h c (hhead ▸ hc)

/-- Whether a lexeme is the longest of its class is decided by the character behind it. -/
theorem Longest.of_head?_eq {cls : LexClass} {text rest other : List Char} {kind : Kind}
    {literal : String} (hlex : Lexeme cls text kind literal) (hlong : Longest cls text rest)
    (hhead : other.head? = rest.head?) : Longest cls text other := by
  cases hlex with
  | integer hne hds =>
      have hfails := (longest_integer_iff hne hds).1 hlong
      exact (longest_integer_iff hne hds).2 (hfails.of_head?_eq hhead)
  | fraction hne hds hfs =>
      have hfails := (longest_fraction_iff hne hds hfs).1 hlong
      exact (longest_fraction_iff hne hds hfs).2 (hfails.of_head?_eq hhead)
  | word hstart hparts _ =>
      have hfails := (longest_word_iff hstart hparts).1 hlong
      exact (longest_word_iff hstart hparts).2 (hfails.of_head?_eq hhead)
  | operator hmem =>
      rcases text with _ | ⟨a, _ | ⟨b, text⟩⟩
      · exact absurd hmem (by simp [operatorKinds])
      · -- A longer operator would go on with an equals sign, in front of both.
        intro more hne hpre kind' literal' hlonger
        rcases more with _ | ⟨c, more⟩
        · exact hne rfl
        obtain ⟨rfl, rfl⟩ := hlonger.operator_pair
        obtain ⟨tail, rfl⟩ := hpre
        obtain ⟨tail', rfl⟩ := List.head?_eq_some_iff.1 hhead.symm
        exact hlong ['='] hne ⟨tail', rfl⟩ kind' literal' hlonger
      · intro more hne _ kind' literal' hlonger
        exact hne (List.append_eq_nil_iff.1 hlonger.operator_pair.2).2
  | string _ => exact longest_string

/-- Pieces stay what they are when the source goes on with the same character and then otherwise. -/
theorem Splits.replace {source rest : List Char} {segments : List Segment} {c : Char}
    (h : Splits source segments (c :: rest)) (other : List Char) :
    Splits (segments.flatMap Segment.text ++ c :: other) segments (c :: other) := by
  generalize hend : c :: rest = last at h
  induction h with
  | done => exact .done
  | blank hblank _ ih => exact .blank hblank (ih hend)
  | @lexeme _ text cs last _ _ segments hlex hlong hsplit ih =>
      subst hend
      have hhead : (segments.flatMap Segment.text ++ c :: other).head? = cs.head? := by
        rw [← hsplit.flatMap_text]
        cases segments.flatMap Segment.text <;> rfl
      rw [List.flatMap_cons, Segment.text, List.append_assoc]
      exact .lexeme hlex (hlong.of_head?_eq hlex hhead) (ih rfl)
  | unclosed _ => cases hend

/-! ## The first fault -/

/-- Scanning comes as far as a character that nothing can be made of: what stands in front of it in
the source is a row of pieces. -/
def StopsAt (source before : List Char) (c : Char) (after : List Char) : Prop :=
  ∃ segments, Splits source segments (c :: after) ∧ before = segments.flatMap Segment.text ∧
    Unscannable c after

namespace StopsAt

variable {source before after : List Char} {c : Char}

theorem source_eq (h : StopsAt source before c after) : source = before ++ c :: after := by
  obtain ⟨segments, hsplit, rfl, -⟩ := h
  exact hsplit.flatMap_text.symm

/-- There is one such place at most. -/
theorem unique (h : StopsAt source before c after) {before' after' : List Char} {c' : Char}
    (h' : StopsAt source before' c' after') : before' = before ∧ c' = c ∧ after' = after := by
  obtain ⟨segments, hsplit, rfl, hbad⟩ := h
  obtain ⟨others, hsplit', rfl, hbad'⟩ := h'
  obtain ⟨rfl, hrest⟩ := hsplit.unique_of_blocked hsplit' (blocked_cons_iff.2 hbad)
    (blocked_cons_iff.2 hbad')
  obtain ⟨rfl, rfl⟩ := List.cons.inj hrest
  exact ⟨rfl, rfl, rfl⟩

/-- Another source that begins in this way stops at the same place. -/
theorem replace (h : StopsAt source before c after) {other : List Char}
    (hother : c = '!' → other.head? ≠ some '=') :
    StopsAt (before ++ c :: other) before c other := by
  obtain ⟨segments, hsplit, rfl, hbad⟩ := h
  exact ⟨segments, hsplit.replace other, rfl, hbad.replace hother⟩

theorem scan_eq (h : StopsAt source before c after) :
    Token.scan source = .error ⟨.ofUnscannable c, .afterText before⟩ := by
  obtain ⟨segments, hsplit, rfl, hbad⟩ := h
  rw [Token.scan, Token.scanFrom_of_splits hsplit, Token.scanFrom_bad hbad.stands,
    Position.start_past]

end StopsAt

/-- A scan that fails has come to a character that nothing can be made of. -/
theorem exists_stopsAt {source : List Char} {fault : Fault}
    (h : Token.scan source = .error fault) : ∃ before c after, StopsAt source before c after := by
  obtain ⟨segments, rest, hsplit, hend⟩ := Splits.exists_blocked source
  cases rest with
  | nil => cases (Token.scan_of_splits hsplit).symm.trans h
  | cons c after => exact ⟨_, c, after, segments, hsplit, rfl, blocked_cons_iff.1 hend⟩

/-- A scan fails exactly when it comes to a character that nothing can be made of. There is one such
place in a source at most. The fault is a lexical one, its line and its column are counted from the
characters in front, it is told as what the character is, and it is the same whatever else stands
behind the character, save for an equals sign behind an exclamation mark. -/
theorem Token.scan_faults (source : List Char) :
    ((∃ fault, Token.scan source = .error fault) ↔
        ∃ before c after, StopsAt source before c after) ∧
      ∀ before c after, StopsAt source before c after →
        source = before ++ c :: after ∧
          (∀ before' c' after', StopsAt source before' c' after' →
            before' = before ∧ c' = c ∧ after' = after) ∧
          ∃ fault, Token.scan source = .error fault ∧ fault.code.name = "LEX_ERROR" ∧
            fault.pos = ⟨1 + before.count '\n',
              1 + (before.reverse.takeWhile (· != '\n')).length⟩ ∧
            fault.message = (if c = '!' then "Expected '=' after '!'"
              else "Invalid character '" ++ String.singleton c ++ "'") ∧
            ∀ other, (c = '!' → other.head? ≠ some '=') →
              Token.scan (before ++ c :: other) = .error fault := by
  refine ⟨⟨?_, ?_⟩, ?_⟩
  · rintro ⟨fault, hfault⟩
    exact exists_stopsAt hfault
  · rintro ⟨before, c, after, hstops⟩
    exact ⟨_, hstops.scan_eq⟩
  · intro before c after hstops
    refine ⟨hstops.source_eq, fun _ _ _ hother => hstops.unique hother, _, hstops.scan_eq, ?_, rfl,
      ?_, fun other hother => (hstops.replace hother).scan_eq⟩
    · simp only [Fault.code, Cause.ofUnscannable]
      split <;> rfl
    · simp only [Fault.message, Cause.ofUnscannable]
      split <;> rfl

/-- An exclamation mark within a string, one in front of an equals sign, and then one alone on the
next line, with a character behind it that would be a fault too. -/
theorem Token.scan_faults_lone_bang :
    let before := ['"', '!', '"', '!', '=', '\n', ' ']
    StopsAt (before ++ ['!', '@', '=']) before '!' ['@', '='] ∧
      ∃ fault, Token.scan (before ++ ['!', '@', '=']) = .error fault ∧
        fault.pos = ⟨2, 2⟩ ∧ fault.message = "Expected '=' after '!'" ∧
        Token.scan (before ++ ['!']) = .error fault := by
  intro before
  have hstring : Lexeme .string ['"', '!', '"'] .string (String.ofList ['!']) :=
    @Lexeme.string ['!'] (by decide)
  have hquoted : Longest .string ['"', '!', '"'] ('!' :: '=' :: '\n' :: ' ' :: ['!', '@', '=']) :=
    @longest_string ['!'] _
  have hstops : StopsAt (before ++ ['!', '@', '=']) before '!' ['@', '='] := by
    refine ⟨[.lexeme ['"', '!', '"'] .string (String.ofList ['!']),
      .lexeme ['!', '='] .notEqual (String.ofList ['!', '=']), .blank '\n', .blank ' '], ?_, rfl,
      .inl ⟨rfl, by decide⟩⟩
    refine .lexeme hstring hquoted (.lexeme (.operator (by decide)) longest_operator_pair ?_)
    exact .blank (by decide) (.blank (by decide) .done)
  obtain ⟨-, -, fault, hscan, -, hpos, hmessage, hsame⟩ :=
    (Token.scan_faults _).2 before '!' ['@', '='] hstops
  exact ⟨hstops, fault, hscan, hpos, hmessage, hsame [] (by simp)⟩

end Reckoner
