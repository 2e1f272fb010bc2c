import Mathlib.Algebra.Group.Nat.Even
import Reckoner.Proofs.Parser.Lookahead
import Reckoner.Proofs.Splitting

/-!
# Sources in another layout

Outside strings only lexemes count: which blanks separate them, and how many, and in which case
their letters are written, makes no difference to the tokens. What is inside a string is told by the
quotes in front, for nothing is escaped: an odd number of them leaves a string open.

* `Relaid` — a source with other blanks and letters in another case, outside strings;
* `Relaid.span`, `Relaid.inside` — beginnings of such sources, outside strings and inside;
* `Cut.Same`, `cut_same` — the same piece stands at the head of both;
* `Token.scan_relaid` — both have the same tokens, or fail in the same words.
-/

namespace Reckoner

open Text

/-! ## Other blanks and other cases -/

/-- Behind `quotes` quotes, two sources that differ outside strings only: in their blanks, where
both have some, and in the case of their ASCII letters. -/
inductive Relaid : (quotes : Nat) → List Char → List Char → Prop where
  | nil {n : Nat} : Relaid n [] []
  | same {n : Nat} {c : Char} {s t : List Char} :
      Relaid (n + if c = '"' then 1 else 0) s t → Relaid n (c :: s) (c :: t)
  | letter {n : Nat} {c d : Char} {s t : List Char} :
      Even n → isAsciiLetter c → isAsciiLetter d → lowerChar c = lowerChar d →
        Relaid n s t → Relaid n (c :: s) (d :: t)
  | blanks {n : Nat} {ws ws' s t : List Char} :
      Even n → ws ≠ [] → ws' ≠ [] → (∀ c ∈ ws, isBlank c) → (∀ c ∈ ws', isBlank c) →
        Relaid n s t → Relaid n (ws ++ s) (ws' ++ t)

/-- The class of characters holds no blanks and no quotes, and does not tell ASCII letters apart. -/
structure CaseBlind (p : Char → Bool) : Prop where
  blank : ∀ c, isBlank c → p c = false
  quote : p '"' = false
  letter : ∀ c d, isAsciiLetter c → isAsciiLetter d → p c = p d

theorem caseBlind_isDigit : CaseBlind isDigit where
  blank c hblank := by
    by_contra hdigit
    have hnot := not_isBlank_of_isDigit (Bool.of_not_eq_false hdigit)
    exact Bool.false_ne_true (hnot.symm.trans hblank)
  quote := by decide
  letter := by
    have hnot {c : Char} (hc : isAsciiLetter c) : isDigit c = false :=
      not_isDigit_of_isWordStart (by simp [isWordStart, isLetter, hc])
    intro c d hc hd
    rw [hnot hc, hnot hd]

theorem caseBlind_isWordPart : CaseBlind isWordPart where
  blank c hblank := by
    by_contra hpart
    have hnot := not_isBlank_of_isWordPart (Bool.of_not_eq_false hpart)
    exact Bool.false_ne_true (hnot.symm.trans hblank)
  quote := by decide
  letter c d hc hd := by simp [isWordPart, isLetter, hc, hd]

namespace Relaid

variable {n : Nat} {a b s t : List Char} {p : Char → Bool}

/-- Outside strings, characters of a class at the head: the same but for their case, and behind
them again such sources. -/
theorem span (hp : CaseBlind p) (h : Relaid n a b) (hn : Even n) :
    (a.takeWhile p).map lowerChar = (b.takeWhile p).map lowerChar ∧
      Relaid n (a.dropWhile p) (b.dropWhile p) := by
  induction h with
  | nil => exact ⟨rfl, .nil⟩
  | @same n c s t h ih =>
      by_cases hc : p c
      · -- No quote is in the class, so the sources stay outside strings.
        have hquote : c ≠ '"' := by
          rintro rfl
          exact Bool.false_ne_true (hp.quote.symm.trans hc)
        rw [if_neg hquote] at ih
        obtain ⟨htaken, hrest⟩ := ih hn
        simp only [List.takeWhile_cons, List.dropWhile_cons, hc, if_true, List.map_cons, htaken]
        exact ⟨trivial, hrest⟩
      · simp only [List.takeWhile_cons, List.dropWhile_cons, hc]
        exact ⟨rfl, .same h⟩
  | @letter n c d s t _ hc hd hcase h ih =>
      have hsame := hp.letter c d hc hd
      by_cases hpc : p c
      · obtain ⟨htaken, hrest⟩ := ih hn
        have hpd := hsame ▸ hpc
        simp only [List.takeWhile_cons, List.dropWhile_cons, hpc, hpd, if_true, List.map_cons,
          htaken, hcase]
        exact ⟨trivial, hrest⟩
      · have hpd := hsame ▸ hpc
        simp only [List.takeWhile_cons, List.dropWhile_cons, hpc, hpd]
        exact ⟨rfl, .letter hn hc hd hcase h⟩
  | @blanks n ws ws' s t _ hws hws' hblank hblank' h =>
      obtain ⟨w, rest, rfl⟩ := List.exists_cons_of_ne_nil hws
      obtain ⟨w', rest', rfl⟩ := List.exists_cons_of_ne_nil hws'
      have hw := hp.blank w (hblank w (by simp))
      have hw' := hp.blank w' (hblank' w' (by simp))
      simp only [List.cons_append, List.takeWhile_cons, List.dropWhile_cons, hw, hw']
      exact ⟨rfl, .blanks hn hws hws' hblank hblank' h⟩

/-- Inside a string nothing differs up to its end. -/
theorem inside (h : Relaid n a b) (hn : ¬ Even n) :
    a.takeWhile (· != '"') = b.takeWhile (· != '"') ∧
      ((a.dropWhile (· != '"') = [] ∧ b.dropWhile (· != '"') = []) ∨
        ∃ s t, a.dropWhile (· != '"') = '"' :: s ∧ b.dropWhile (· != '"') = '"' :: t ∧
          Relaid (n + 1) s t) := by
  induction h with
  | nil => exact ⟨rfl, .inl ⟨rfl, rfl⟩⟩
  | @same n c s t h ih =>
      by_cases hc : c = '"'
      · subst hc
        exact ⟨rfl, .inr ⟨s, t, rfl, rfl, h⟩⟩
      · rw [if_neg hc] at ih
        simpa [hc] using ih hn
  | letter heven => exact absurd heven hn
  | blanks heven => exact absurd heven hn

/-- A character that is neither blank nor a letter nor a quote stands at the head of both or of
neither. -/
theorem head_cases {c : Char} (hblank : isBlank c = false) (hletter : isAsciiLetter c = false)
    (hquote : c ≠ '"') (h : Relaid n a b) :
    (∃ s t, a = c :: s ∧ b = c :: t ∧ Relaid n s t) ∨ (a.head? ≠ some c ∧ b.head? ≠ some c) := by
  cases h with
  | nil => simp
  | @same _ d s t h =>
      by_cases hc : d = c
      · subst hc
        rw [if_neg hquote] at h
        exact .inl ⟨s, t, rfl, rfl, h⟩
      · exact .inr (by simpa using hc)
  | letter _ hc hd _ _ =>
      have hne {d : Char} (hd : isAsciiLetter d) : d ≠ c := by
        rintro rfl
        exact Bool.false_ne_true (hletter.symm.trans hd)
      have hc := hne hc
      have hd := hne hd
      exact .inr (by simpa using ⟨hc, hd⟩)
  | blanks _ hws hws' hb hb' _ =>
      have hne {d : Char} (hd : isBlank d) : d ≠ c := by
        rintro rfl
        exact Bool.false_ne_true (hblank.symm.trans hd)
      obtain ⟨w, rest, rfl⟩ := List.exists_cons_of_ne_nil hws
      obtain ⟨w', rest', rfl⟩ := List.exists_cons_of_ne_nil hws'
      have hw := hne (hb w (by simp))
      have hw' := hne (hb' w' (by simp))
      exact .inr (by simpa using ⟨hw, hw'⟩)

end Relaid

/-! ## The same pieces -/

/-- The same piece is cut off two sources, and what is left differs outside strings only. -/
def Cut.Same (k k' : Cut) : Prop :=
  k.piece = k'.piece ∧ ∃ n, Even n ∧ Relaid n k.rest k'.rest

section

variable {n : Nat} {c d : Char} {s t : List Char}

theorem map_lowerChar_takeWhile_isDigit (s : List Char) :
    (s.takeWhile isDigit).map lowerChar = s.takeWhile isDigit := by
  have hself : ∀ c ∈ s.takeWhile isDigit, lowerChar c = c := by
    intro c hc
    exact lowerChar_of_isDecimal (by simp [isDecimal, List.mem_takeWhile_imp hc])
  rw [List.map_congr_left hself, List.map_id']

theorem cutNumber_point {more : List Char} (h : s.dropWhile isDigit = '.' :: more) :
    cutNumber c s = ⟨.lexeme .float (String.ofList (c :: s.takeWhile isDigit ++
      '.' :: more.takeWhile isDigit)), c :: s.takeWhile isDigit ++ '.' :: more.takeWhile isDigit,
      more.dropWhile isDigit⟩ := by
  unfold cutNumber
  simp only [h]

theorem cutNumber_whole (h : (s.dropWhile isDigit).head? ≠ some '.') :
    cutNumber c s = ⟨.lexeme .int (String.ofList (c :: s.takeWhile isDigit)),
      c :: s.takeWhile isDigit, s.dropWhile isDigit⟩ := by
  unfold cutNumber
  dsimp only
  split
  · next hpoint => simp [hpoint] at h
  · rfl

theorem cutNumber_same (h : Relaid n s t) (hn : Even n) :
    Cut.Same (cutNumber c s) (cutNumber c t) := by
  -- Digits have no case, so they are the same digits.
  have hdigits {s t : List Char} (h : Relaid n s t) :
      s.takeWhile isDigit = t.takeWhile isDigit ∧
        Relaid n (s.dropWhile isDigit) (t.dropWhile isDigit) := by
    have hspan := h.span caseBlind_isDigit hn
    simpa only [map_lowerChar_takeWhile_isDigit] using hspan
  obtain ⟨hwhole, hrest⟩ := hdigits h
  rcases hrest.head_cases (c := '.') (by decide) (by decide) (by decide) with
    ⟨u, v, hu, hv, hmore⟩ | ⟨hu, hv⟩
  · obtain ⟨hfraction, hrest⟩ := hdigits hmore
    rw [cutNumber_point hu, cutNumber_point hv, hwhole, hfraction]
    exact ⟨rfl, n, hn, hrest⟩
  · rw [cutNumber_whole hu, cutNumber_whole hv, hwhole]
    exact ⟨rfl, n, hn, hrest⟩

theorem cutWord_same (hcase : lowerChar c = lowerChar d) (h : Relaid n s t) (hn : Even n) :
    Cut.Same (cutWord c s) (cutWord d t) := by
  obtain ⟨htaken, hrest⟩ := h.span caseBlind_isWordPart hn
  refine ⟨?_, n, hn, hrest⟩
  simp only [cutWord, List.map_cons, hcase, htaken]

theorem cutString_same (h : Relaid n s t) (hn : ¬ Even n) :
    Cut.Same (cutString s) (cutString t) := by
  obtain ⟨hbody, ⟨hs, ht⟩ | ⟨u, v, hs, ht, hrest⟩⟩ := h.inside hn
  · unfold cutString
    rw [hs, ht]
    exact ⟨rfl, 0, Even.zero, .nil⟩
  · unfold cutString
    rw [hs, ht, hbody]
    exact ⟨rfl, n + 1, (Nat.even_add_one).2 hn, hrest⟩

theorem head_cases_equals (h : Relaid n s t) :
    (∃ u v, s = '=' :: u ∧ t = '=' :: v ∧ Relaid n u v) ∨
      (s.head? ≠ some '=' ∧ t.head? ≠ some '=') :=
  h.head_cases (by decide) (by decide) (by decide)

theorem cutComparison_same {single double : Kind} (h : Relaid n s t) (hn : Even n) :
    Cut.Same (cutComparison c single double s) (cutComparison c single double t) := by
  rcases head_cases_equals h with ⟨u, v, rfl, rfl, hrest⟩ | ⟨hs, ht⟩
  · exact ⟨rfl, n, hn, hrest⟩
  · rw [cutComparison_single hs, cutComparison_single ht]
    exact ⟨rfl, n, hn, h⟩

theorem cutSymbol_same (h : Relaid (n + if c = '"' then 1 else 0) s t) (hn : Even n) :
    Cut.Same (cutSymbol c s) (cutSymbol c t) := by
  by_cases hquote : c = '"'
  · -- The quote that opens the string makes the number of quotes odd.
    subst hquote
    exact cutString_same h (by simpa using (Nat.even_add_one).not.2 (by simpa using hn))
  rw [if_neg hquote] at h
  unfold cutSymbol
  split
  · rcases head_cases_equals h with ⟨u, v, rfl, rfl, hrest⟩ | ⟨hs, ht⟩
    · exact ⟨rfl, n, hn, hrest⟩
    · split
      · simp at hs
      · split
        · simp at ht
        · exact ⟨rfl, n, hn, h⟩
  · exact cutComparison_same h hn
  · exact cutComparison_same h hn
  · exact cutComparison_same h hn
  · exact absurd rfl hquote
  · split <;> exact ⟨rfl, n, hn, h⟩

/-- Where both sources begin with a character that is no blank, the same piece stands in both. -/
theorem cut_same (h : Relaid (n + if c = '"' then 1 else 0) s t) (hn : Even n)
    (hblank : isBlank c = false) : Cut.Same (cut c s) (cut c t) := by
  have hplain (hc : c ≠ '"') : Relaid n s t := by simpa [hc] using h
  unfold cut
  simp only [hblank, Bool.false_eq_true, if_false]
  by_cases hdigit : isDigit c
  · have hquote : c ≠ '"' := by
      rintro rfl
      exact absurd hdigit (by decide)
    simp only [hdigit, if_true]
    exact cutNumber_same (hplain hquote) hn
  by_cases hstart : isWordStart c
  · have hquote : c ≠ '"' := by
      rintro rfl
      exact absurd hstart (by decide)
    simp only [hdigit, hstart, if_true]
    exact cutWord_same rfl (hplain hquote) hn
  · simp only [hdigit, hstart]
    exact cutSymbol_same h hn

theorem cut_of_isAsciiLetter (hc : isAsciiLetter c) (s : List Char) : cut c s = cutWord c s := by
  have hstart : isWordStart c := by simp [isWordStart, isLetter, hc]
  simp [cut, hstart, not_isBlank_of_isWordStart hstart, not_isDigit_of_isWordStart hstart]

end

/-! ## The same tokens -/

/-- The token without its place. -/
def Token.unplaced (t : Token) : Token :=
  t.mapPos fun _ => .nowhere

/-- The class of the fault and its words, without its place. -/
def Fault.said (fault : Fault) : Code × String :=
  (fault.code, fault.message)

/-- An outcome without places: an answer by `f`, and a fault by its class and words. -/
def withoutPlaces {α β : Type} (f : α → β) (x : Except Fault α) : Except (Code × String) β :=
  (x.map f).mapError Fault.said

namespace Token

theorem scanFrom_blanks {ws : List Char} (hws : ∀ c ∈ ws, isBlank c) (p : Position)
    (read : List Token) (s : List Char) :
    scanFrom p read (ws ++ s) = scanFrom (p.past ws) read s := by
  induction ws generalizing p with
  | nil => rfl
  | cons c ws ih =>
      rw [List.cons_append, scanFrom_blank (hws c (by simp)), ih fun d hd => hws d (by simp [hd])]
      rfl

/-- Behind an even number of quotes the scans of both sources go on alike. -/
theorem scanFrom_relaid {n : Nat} {a b : List Char} (h : Relaid n a b) (hn : Even n)
    (p q : Position) {read read' : List Token} (hread : read.map unplaced = read'.map unplaced) :
    withoutPlaces (List.map unplaced) (scanFrom p read a) =
      withoutPlaces (List.map unplaced) (scanFrom q read' b) := by
  -- What is left behind a piece is no part of the derivation of `h`, but it is shorter.
  induction hlength : a.length using Nat.strongRecOn generalizing n a b p q read read' with
  | ind m ih =>
      subst hlength
      have hcut {c d : Char} {s t : List Char} (hsame : Cut.Same (cut c s) (cut d t))
          (ha : a = c :: s) (hb : b = d :: t) :
          withoutPlaces (List.map unplaced) (scanFrom p read a) =
            withoutPlaces (List.map unplaced) (scanFrom q read' b) := by
        subst ha hb
        have hshorter := cut_rest_lt c s
        obtain ⟨hpiece, m, hm, hrest⟩ := hsame
        rw [scanFrom.eq_def p read, scanFrom.eq_def q read']
        dsimp only
        rw [hpiece]
        cases (cut d t).piece with
        | blank => exact ih _ hshorter hrest hm _ _ hread rfl
        | lexeme kind literal =>
            refine ih _ hshorter hrest hm _ _ ?_ rfl
            rw [List.map_cons, List.map_cons, hread]
            rfl
        | openString => exact ih _ hshorter hrest hm _ _ hread rfl
        | bad cause => rfl
      cases h with
      | nil =>
          rw [scanFrom_nil, scanFrom_nil]
          change Except.ok (List.map unplaced _) = Except.ok (List.map unplaced _)
          rw [List.map_reverse, List.map_reverse, List.map_cons, List.map_cons, hread]
          rfl
      | @same _ c s t h =>
          by_cases hblank : isBlank c
          · have hquote : c ≠ '"' := by
              rintro rfl
              exact absurd hblank (by decide)
            rw [if_neg hquote] at h
            rw [scanFrom_blank hblank, scanFrom_blank hblank]
            exact ih _ (Nat.lt_succ_self _) h hn _ _ hread rfl
          · exact hcut (cut_same h hn (Bool.of_not_eq_true hblank)) rfl rfl
      | letter _ hc hd hcase h =>
          refine hcut ?_ rfl rfl
          rw [cut_of_isAsciiLetter hc, cut_of_isAsciiLetter hd]
          exact cutWord_same hcase h hn
      | blanks _ hws _ hblank hblank' h =>
          -- The runs may differ in length, so each is passed over as a whole.
          rw [scanFrom_blanks hblank, scanFrom_blanks hblank']
          have hsome := List.length_pos_iff.2 hws
          exact ih _ (by rw [List.length_append]; omega) h hn _ _ hread rfl

/-- Sources that differ outside strings only, in blanks and in the case of letters, have the same
tokens, or fail in the same words. -/
theorem scan_relaid {a b : List Char} (h : Relaid 0 a b) :
    withoutPlaces (List.map unplaced) (scan a) = withoutPlaces (List.map unplaced) (scan b) :=
  scanFrom_relaid h Even.zero _ _ rfl

end Token
end Reckoner
