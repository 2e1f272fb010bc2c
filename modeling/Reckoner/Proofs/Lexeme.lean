import Mathlib.Data.List.TakeWhile
import Reckoner.Proofs.Characters
import Reckoner.Token.Lexer

/-!
# Lexemes and the longest match

What may stand at the head of a source, said without the scanner.

* `operatorKinds`, `wordKinds` — tables of the operators and of the words that are no identifiers;
* `Lexeme` — the texts of each class, with the kind and the literal of their tokens;
* `Longest` — no longer beginning of the source is a lexeme of the same class;
* `Stands` — a blank, a longest lexeme, a string without an end, or a character that starts nothing;
* `stands_cut`, `cut_eq_of_stands` — `cut` finds exactly what stands at the head.
-/

namespace Reckoner

open Text

/-- The classes of lexemes. -/
inductive LexClass where
  | number
  | word
  | operator
  | string

/-- Operators and punctuation, with their kinds. -/
def operatorKinds : List (List Char × Kind) :=
  [(['!', '='], .notEqual), (['=', '='], .equal), (['<', '='], .lessEqual),
    (['>', '='], .greaterEqual), (['='], .assign), (['<'], .less), (['>'], .greater),
    (['+'], .plus), (['-'], .minus), (['*'], .mul), (['/'], .div), (['^'], .pow), (['%'], .mod),
    (['('], .openParen), ([')'], .closeParen), (['\x7b'], .openBrace), (['\x7d'], .closeBrace),
    ([','], .comma), ([';'], .semicolon), ([':'], .colon)]

/-- The words that are no identifiers, with their kinds. -/
def wordKinds : List (String × Kind) :=
  [("div", .div), ("mod", .mod), ("var", .keyword), ("exit", .keyword), ("and", .keyword),
    ("or", .keyword), ("not", .keyword), ("xor", .keyword), ("if", .keyword), ("then", .keyword),
    ("else", .keyword), ("elif", .keyword), ("endif", .keyword), ("end", .keyword),
    ("for", .keyword), ("while", .keyword), ("endwhile", .keyword), ("switch", .keyword),
    ("case", .keyword), ("default", .keyword), ("endswitch", .keyword), ("break", .keyword),
    ("continue", .keyword)]

/-- The kind of a word: that in the table, or else an identifier. -/
def tableKind (word : String) : Kind :=
  (wordKinds.lookup word).getD .identifier

/-- A text of a class, with the kind and the literal of its token. -/
inductive Lexeme : LexClass → List Char → Kind → String → Prop where
  | integer {ds : List Char} :
      ds ≠ [] → (∀ d ∈ ds, isDigit d) → Lexeme .number ds .int (String.ofList ds)
  | fraction {ds fs : List Char} :
      ds ≠ [] → (∀ d ∈ ds, isDigit d) → (∀ d ∈ fs, isDigit d) →
        Lexeme .number (ds ++ '.' :: fs) .float (String.ofList (ds ++ '.' :: fs))
  | word {c : Char} {cs : List Char} {word : String} :
      isWordStart c → (∀ d ∈ cs, isWordPart d) → word = String.ofList ((c :: cs).map lowerChar) →
        Lexeme .word (c :: cs) (tableKind word) word
  | operator {text : List Char} {kind : Kind} :
      (text, kind) ∈ operatorKinds → Lexeme .operator text kind (String.ofList text)
  | string {body : List Char} :
      '"' ∉ body → Lexeme .string ('"' :: body ++ ['"']) .string (String.ofList body)

theorem keywords_perm : keywords.Perm (wordKinds.map Prod.fst) := by
  decide

/-- The scanner goes by the table. -/
theorem tableKind_eq (word : String) : tableKind word = wordKind word := by
  by_cases hmem : word ∈ wordKinds.map Prod.fst
  · have hall : ∀ word ∈ wordKinds.map Prod.fst, tableKind word = wordKind word := by decide
    exact hall word hmem
  · have hnone : wordKinds.lookup word = none := by
      rw [List.lookup_eq_none_iff]
      intro entry hentry
      have hne : word ≠ entry.1 := fun heq => hmem (heq ▸ List.mem_map_of_mem hentry)
      simpa using hne
    have hword : word ∉ keywords := fun hkeyword => hmem (keywords_perm.subset hkeyword)
    have hdiv : word ≠ "div" := by
      rintro rfl
      exact hword (by decide)
    have hmod : word ≠ "mod" := by
      rintro rfl
      exact hword (by decide)
    simp [tableKind, wordKind, hnone, hword, hdiv, hmod]

theorem tableKind_mem (word : String) :
    tableKind word ∈ [Kind.div, .mod, .keyword, .identifier] := by
  rw [tableKind_eq]
  unfold wordKind
  split
  · simp
  · split
    · simp
    · split <;> simp

/-- A word with the kind that the scanner gives it. -/
theorem Lexeme.ofWord {c : Char} {cs : List Char} {word : String} (hc : isWordStart c)
    (hcs : ∀ d ∈ cs, isWordPart d) (hword : word = String.ofList ((c :: cs).map lowerChar)) :
    Lexeme .word (c :: cs) (wordKind word) word :=
  tableKind_eq word ▸ .word hc hcs hword

/-- No longer beginning of the source `text ++ rest` is a lexeme of the class. -/
def Longest (cls : LexClass) (text rest : List Char) : Prop :=
  ∀ more, more ≠ [] → more <+: rest → ∀ kind literal, ¬ Lexeme cls (text ++ more) kind literal

/-- What stands at the head of a source, with the characters it takes and those after it. -/
inductive Stands : List Char → Cut → Prop where
  | blank {c : Char} {cs : List Char} : isBlank c → Stands (c :: cs) ⟨.blank, [c], cs⟩
  | lexeme {cls : LexClass} {text rest : List Char} {kind : Kind} {literal : String} :
      Lexeme cls text kind literal → Longest cls text rest →
        Stands (text ++ rest) ⟨.lexeme kind literal, text, rest⟩
  | openString {body : List Char} :
      '"' ∉ body → Stands ('"' :: body) ⟨.openString, '"' :: body, []⟩
  | loneBang {cs : List Char} :
      cs.head? ≠ some '=' → Stands ('!' :: cs) ⟨.bad .loneBang, ['!'], cs⟩
  /-- The character is neither blank nor the first of any lexeme. -/
  | stray {c : Char} {cs : List Char} :
      isBlank c = false → (∀ cls more kind literal, ¬ Lexeme cls (c :: more) kind literal) →
        Stands (c :: cs) ⟨.bad (.strayCharacter c), [c], cs⟩

theorem Lexeme.ne_nil {cls : LexClass} {text : List Char} {kind : Kind} {literal : String}
    (h : Lexeme cls text kind literal) : text ≠ [] := by
  cases h with
  | integer hne _ => exact hne
  | fraction _ _ _ => simp
  | word _ _ _ => simp
  | operator hmem =>
      rintro rfl
      simp [operatorKinds] at hmem
  | string _ => simp

/-! ## How a longest lexeme ends -/

/-- The text does not go on with a character of the set. -/
def HeadFails (p : Char → Bool) (rest : List Char) : Prop :=
  ∀ c ∈ rest.head?, p c = false

@[simp] theorem headFails_nil (p : Char → Bool) : HeadFails p [] := by
  simp [HeadFails]

@[simp] theorem headFails_cons {p : Char → Bool} {c : Char} {cs : List Char} :
    HeadFails p (c :: cs) ↔ p c = false := by
  simp [HeadFails]

theorem headFails_dropWhile (p : Char → Bool) (cs : List Char) :
    HeadFails p (cs.dropWhile p) := by
  intro c hc
  have hnot := List.head?_dropWhile_not p cs
  simpa [Option.mem_def.1 hc] using hnot

theorem takeWhile_append_of_headFails {p : Char → Bool} {cs rest : List Char}
    (hcs : ∀ c ∈ cs, p c) (hrest : HeadFails p rest) : (cs ++ rest).takeWhile p = cs := by
  rw [List.takeWhile_append_of_pos hcs]
  cases rest with
  | nil => simp
  | cons c rest => simp [headFails_cons.1 hrest]

theorem dropWhile_append_of_headFails {p : Char → Bool} {cs rest : List Char}
    (hcs : ∀ c ∈ cs, p c) (hrest : HeadFails p rest) : (cs ++ rest).dropWhile p = rest := by
  rw [List.dropWhile_append_of_pos hcs]
  cases rest with
  | nil => simp
  | cons c rest => simp [headFails_cons.1 hrest]

/-- A lexeme is longest when every longer one of its class goes on with a character of the set, and
the source does not. -/
theorem longest_of_headFails {cls : LexClass} {text rest : List Char} {p : Char → Bool}
    (hgoes : ∀ c more kind literal, Lexeme cls (text ++ c :: more) kind literal → p c)
    (hrest : HeadFails p rest) : Longest cls text rest := by
  intro more hne hpre kind literal hlex
  cases more with
  | nil => exact hne rfl
  | cons c more =>
      rcases hpre with ⟨tail, rfl⟩
      have hfails : p c = false := headFails_cons.1 hrest
      have hholds : p c := hgoes c more kind literal hlex
      simp [hfails] at hholds

/-- After a longest lexeme the source does not go on with a character that would lengthen it. -/
theorem Longest.headFails {cls : LexClass} {text rest : List Char} {p : Char → Bool}
    (hlong : Longest cls text rest)
    (hgrows : ∀ c, p c → ∃ kind literal, Lexeme cls (text ++ [c]) kind literal) :
    HeadFails p rest := by
  intro c hc
  cases hp : p c with
  | false => rfl
  | true =>
      rcases hgrows c hp with ⟨kind, literal, hlex⟩
      have hpre : [c] <+: rest := by
        cases rest with
        | nil => simp at hc
        | cons d rest =>
            have hd : d = c := by simpa using hc
            exact ⟨rest, by simp [hd]⟩
      exact absurd hlex (hlong [c] (by simp) hpre kind literal)

/-! ## Numbers -/

/-- A number goes on with a digit or a point. -/
def isNumberPart (c : Char) : Bool :=
  isDigit c || c == '.'

theorem Lexeme.number_parts {text : List Char} {kind : Kind} {literal : String}
    (h : Lexeme .number text kind literal) :
    (∀ c ∈ text, isNumberPart c) ∧ text.count '.' ≤ 1 := by
  have hcount : ∀ ds : List Char, (∀ d ∈ ds, isDigit d) → ds.count '.' = 0 := by
    intro ds hds
    refine List.count_eq_zero.2 ?_
    intro hmem
    exact absurd (hds _ hmem) (by decide)
  cases h with
  | integer _ hds =>
      refine ⟨?_, by simp [hcount _ hds]⟩
      intro c hc
      simp [isNumberPart, hds c hc]
  | fraction _ hds hfs =>
      refine ⟨?_, by simp [hcount _ hds, hcount _ hfs]⟩
      intro c hc
      rcases List.mem_append.1 hc with hc | hc
      · simp [isNumberPart, hds c hc]
      · rcases List.mem_cons.1 hc with rfl | hc
        · rfl
        · simp [isNumberPart, hfs c hc]

theorem longest_integer_iff {ds rest : List Char} (hne : ds ≠ []) (hds : ∀ d ∈ ds, isDigit d) :
    Longest .number ds rest ↔ HeadFails isNumberPart rest := by
  constructor
  · intro hlong
    refine hlong.headFails ?_
    intro c hc
    -- A digit makes a longer integer, and a point makes a fraction of it.
    rcases Bool.or_eq_true .. ▸ hc with hdigit | hpoint
    · refine ⟨_, _, .integer (by simp) ?_⟩
      intro d hd
      rcases List.mem_append.1 hd with hd | hd
      · exact hds d hd
      · simpa [List.mem_singleton.1 hd] using hdigit
    · have hc : c = '.' := eq_of_beq hpoint
      subst hc
      have hpoint : Lexeme .number (ds ++ '.' :: []) .float (String.ofList (ds ++ ['.'])) :=
        .fraction hne hds (by simp)
      exact ⟨_, _, hpoint⟩
  · intro hrest
    refine longest_of_headFails ?_ hrest
    intro c more kind literal hlex
    exact hlex.number_parts.1 c (by simp)

theorem longest_fraction_iff {ds fs rest : List Char} (hne : ds ≠ [])
    (hds : ∀ d ∈ ds, isDigit d) (hfs : ∀ d ∈ fs, isDigit d) :
    Longest .number (ds ++ '.' :: fs) rest ↔ HeadFails isDigit rest := by
  constructor
  · intro hlong
    refine hlong.headFails ?_
    intro c hc
    refine ⟨.float, String.ofList (ds ++ '.' :: (fs ++ [c])), ?_⟩
    have hmore : Lexeme .number (ds ++ '.' :: (fs ++ [c])) .float
        (String.ofList (ds ++ '.' :: (fs ++ [c]))) := by
      refine .fraction hne hds ?_
      intro d hd
      rcases List.mem_append.1 hd with hd | hd
      · exact hfs d hd
      · simpa [List.mem_singleton.1 hd] using hc
    simpa using hmore
  · intro hrest
    refine longest_of_headFails ?_ hrest
    intro c more kind literal hlex
    -- A second point would be one too many.
    rcases hlex.number_parts with ⟨hparts, hpoints⟩
    rcases Bool.or_eq_true .. ▸ hparts c (by simp) with hdigit | hpoint
    · exact hdigit
    · have hc : c = '.' := eq_of_beq hpoint
      subst hc
      simp at hpoints
      omega

/-! ## Words, operators and strings -/

theorem longest_word_iff {c : Char} {cs rest : List Char} (hc : isWordStart c)
    (hcs : ∀ d ∈ cs, isWordPart d) :
    Longest .word (c :: cs) rest ↔ HeadFails isWordPart rest := by
  constructor
  · intro hlong
    refine hlong.headFails ?_
    intro d hd
    refine ⟨_, _, .word hc ?_ rfl⟩
    intro e he
    rcases List.mem_append.1 he with he | he
    · exact hcs e he
    · simpa [List.mem_singleton.1 he] using hd
  · intro hrest
    refine longest_of_headFails ?_ hrest
    intro d more kind literal hlex
    cases hlex with
    | word _ hparts _ => exact hparts d (by simp)

/-- An operator of more than one character is a comparison with an equals sign. -/
theorem Lexeme.operator_pair {a c : Char} {more : List Char} {kind : Kind} {literal : String}
    (h : Lexeme .operator (a :: c :: more) kind literal) : c = '=' ∧ more = [] := by
  cases h with
  | operator hmem =>
      simp only [operatorKinds, List.mem_cons, Prod.mk.injEq, List.cons.injEq] at hmem
      grind

theorem longest_operator {a : Char} {rest : List Char} (hrest : rest.head? ≠ some '=') :
    Longest .operator [a] rest := by
  have hfails : HeadFails (· == '=') rest := by
    intro c hc
    have hne : c ≠ '=' := by
      intro heq
      exact hrest (by rw [← heq]; exact hc)
    simpa using hne
  refine longest_of_headFails ?_ hfails
  intro c more kind literal hlex
  simp [hlex.operator_pair.1]

/-- A symbol that no equals sign lengthens. -/
theorem longest_symbol {a : Char} {rest : List Char}
    (ha : ∀ kind literal, ¬ Lexeme .operator [a, '='] kind literal) :
    Longest .operator [a] rest := by
  intro more hne _ kind literal hlex
  cases more with
  | nil => exact hne rfl
  | cons c more =>
      rcases hlex.operator_pair with ⟨rfl, rfl⟩
      exact ha kind literal hlex

theorem longest_operator_pair {a c : Char} {rest : List Char} :
    Longest .operator [a, c] rest := by
  intro more hne _ kind literal hlex
  exact hne (by simpa using hlex.operator_pair.2)

/-- A closed string is never the beginning of a longer one. -/
theorem longest_string {body rest : List Char} :
    Longest .string ('"' :: body ++ ['"']) rest := by
  intro more hne _ kind literal hlex
  generalize htext : '"' :: body ++ ['"'] ++ more = text at hlex
  cases hlex with
  | @string longer hquote =>
      -- The closing quote of the shorter string lies inside the longer one.
      rcases List.eq_nil_or_concat more with rfl | ⟨init, last, rfl⟩
      · exact hne rfl
      · have hinner : body ++ '"' :: init = longer := by
          have htail : (body ++ '"' :: init) ++ [last] = longer ++ ['"'] := by
            simpa using htext
          exact (List.append_inj' htail rfl).1
        exact hquote (by simp [← hinner])

/-! ## What is cut stands there -/

theorem stands_cutNumber {c : Char} (cs : List Char) (hc : isDigit c) :
    Stands (c :: cs) (cutNumber c cs) := by
  have hwhole : ∀ d ∈ c :: cs.takeWhile isDigit, isDigit d := by
    intro d hd
    rcases List.mem_cons.1 hd with rfl | hd
    · exact hc
    · exact List.mem_takeWhile_imp hd
  have hsplit := List.takeWhile_append_dropWhile (p := isDigit) (l := cs)
  have hend := headFails_dropWhile isDigit cs
  -- A point behind the digits makes a fraction, whatever comes after the point.
  unfold cutNumber
  split
  · next more hmore =>
    rw [hmore] at hsplit
    have hfs : ∀ d ∈ more.takeWhile isDigit, isDigit d := fun d hd => List.mem_takeWhile_imp hd
    have hstands := Stands.lexeme (.fraction (by simp) hwhole hfs)
      ((longest_fraction_iff (by simp) hwhole hfs).2 (headFails_dropWhile isDigit more))
    simpa [List.takeWhile_append_dropWhile, hsplit] using hstands
  · next hpoint =>
    have hrest : HeadFails isNumberPart (cs.dropWhile isDigit) := by
      intro d hd
      cases hrest : cs.dropWhile isDigit with
      | nil => simp [hrest] at hd
      | cons e rest =>
          have he : e = d := by simpa [hrest] using hd
          have hne : e ≠ '.' := fun heq => hpoint rest (heq ▸ hrest)
          have hdigit : isDigit e = false := by simpa [hrest] using hend
          simp [isNumberPart, ← he, hdigit, hne]
    have hstands := Stands.lexeme (.integer (by simp) hwhole)
      ((longest_integer_iff (by simp) hwhole).2 hrest)
    simpa [hsplit] using hstands

theorem stands_cutWord {c : Char} (cs : List Char) (hc : isWordStart c) :
    Stands (c :: cs) (cutWord c cs) := by
  have hparts : ∀ d ∈ cs.takeWhile isWordPart, isWordPart d := fun d hd => List.mem_takeWhile_imp hd
  have hstands := Stands.lexeme (.ofWord hc hparts rfl)
    ((longest_word_iff hc hparts).2 (headFails_dropWhile isWordPart cs))
  simpa [cutWord, List.takeWhile_append_dropWhile] using hstands

theorem stands_cutString (cs : List Char) : Stands ('"' :: cs) (cutString cs) := by
  have hbody : '"' ∉ cs.takeWhile (· != '"') := by
    intro hmem
    have hne := List.mem_takeWhile_imp hmem
    simp at hne
  have hsplit := List.takeWhile_append_dropWhile (p := (· != '"')) (l := cs)
  have hend := headFails_dropWhile (· != '"') cs
  -- A later quote closes the string; without one it takes all that is left.
  unfold cutString
  split
  · next hnil =>
    rw [hnil, List.append_nil] at hsplit
    exact .openString (hsplit ▸ hbody)
  · next quote rest hrest =>
    have hquote : quote = '"' := by simpa [hrest] using hend
    rw [hrest, hquote] at hsplit
    have hstands := Stands.lexeme (.string hbody) (longest_string : Longest .string _ rest)
    simpa [hquote, hsplit] using hstands

theorem stands_cutComparison {c : Char} {single double : Kind} (cs : List Char)
    (hsingle : ([c], single) ∈ operatorKinds) (hdouble : ([c, '='], double) ∈ operatorKinds) :
    Stands (c :: cs) (cutComparison c single double cs) := by
  unfold cutComparison
  split
  · exact .lexeme (.operator hdouble) longest_operator_pair
  · next hnot =>
    refine .lexeme (.operator hsingle) (longest_operator ?_)
    intro heq
    rcases List.head?_eq_some_iff.1 heq with ⟨rest, rfl⟩
    exact hnot rest rfl

/-- A character with a kind of its own is an operator that no equals sign lengthens. -/
theorem symbolKind?_eq_some {c : Char} {kind : Kind} (h : symbolKind? c = some kind) :
    ([c], kind) ∈ operatorKinds ∧ ∀ kind literal, ¬ Lexeme .operator [c, '='] kind literal := by
  have hpair : ∀ kind literal, Lexeme .operator [c, '='] kind literal →
      ([c, '='], kind) ∈ operatorKinds := by
    intro kind literal hlex
    generalize htext : [c, '='] = text at hlex
    cases hlex with
    | operator hmem => exact hmem
  -- All symbols are listed, so each is looked up among the operators.
  unfold symbolKind? at h
  split at h <;> cases h <;>
    exact ⟨by decide, fun kind literal hlex => by
      have hmem := hpair kind literal hlex
      simp [operatorKinds] at hmem⟩

/-- A character that is no digit and starts no word is the first of a lexeme only if it is an
operator's or the quote. -/
theorem Lexeme.head_cases {cls : LexClass} {c : Char} {more : List Char} {kind : Kind}
    {literal : String} (h : Lexeme cls (c :: more) kind literal) :
    isDigit c ∨ isWordStart c ∨ (∃ kind, (c :: more, kind) ∈ operatorKinds) ∨ c = '"' := by
  generalize htext : c :: more = text at h
  cases h with
  | integer hne hds => exact .inl (hds c (by simp [← htext]))
  | @fraction ds fs hne hds hfs =>
      cases ds with
      | nil => exact absurd rfl hne
      | cons d ds =>
          have hc : c = d := by simpa using (List.cons.inj htext).1
          exact .inl (hds c (by simp [hc]))
  | word hstart _ _ => exact .inr (.inl (by simpa [(List.cons.inj htext).1] using hstart))
  | operator hmem => exact .inr (.inr (.inl ⟨kind, hmem⟩))
  | string _ => exact .inr (.inr (.inr (List.cons.inj htext).1))

theorem stands_cutSymbol {c : Char} (cs : List Char) (hblank : isBlank c = false)
    (hdigit : isDigit c = false) (hstart : isWordStart c = false) :
    Stands (c :: cs) (cutSymbol c cs) := by
  unfold cutSymbol
  split
  · split
    · exact .lexeme (.operator (by decide)) longest_operator_pair
    · next hnot =>
      refine .loneBang ?_
      intro heq
      rcases List.head?_eq_some_iff.1 heq with ⟨rest, rfl⟩
      exact hnot rest rfl
  · exact stands_cutComparison cs (by decide) (by decide)
  · exact stands_cutComparison cs (by decide) (by decide)
  · exact stands_cutComparison cs (by decide) (by decide)
  · exact stands_cutString cs
  · next hbang hequals hless hgreater hquote =>
    split
    · next kind hkind =>
      rcases symbolKind?_eq_some hkind with ⟨hmem, halone⟩
      exact .lexeme (.operator hmem) (longest_symbol halone)
    · next hkind =>
      -- A character that begins some lexeme would have been cut above.
      refine .stray hblank ?_
      intro cls more kind literal hlex
      rcases hlex.head_cases with h | h | ⟨kind, hmem⟩ | h
      · simp [hdigit] at h
      · simp [hstart] at h
      · -- Every operator begins with a character that was looked at before.
        simp only [operatorKinds, List.mem_cons, Prod.mk.injEq, List.cons.injEq,
          List.not_mem_nil, or_false] at hmem
        rcases hmem with h | h | h | h | h | h | h | h | h | h | h | h | h | h | h | h | h | h |
          h | h
        all_goals (rcases h with ⟨⟨rfl, -⟩, -⟩; contradiction)
      · exact hquote h

/-- What is cut from a source stands at its head. -/
theorem stands_cut (c : Char) (cs : List Char) : Stands (c :: cs) (cut c cs) := by
  unfold cut
  split
  · next hblank => exact .blank hblank
  · next hblank =>
    split
    · next hdigit => exact stands_cutNumber cs hdigit
    · next hdigit =>
      split
      · next hstart => exact stands_cutWord cs hstart
      · next hstart =>
        exact stands_cutSymbol cs (by simpa using hblank) (by simpa using hdigit)
          (by simpa using hstart)

/-! ## What stands there is cut -/

theorem cut_integer {c : Char} {cs rest : List Char} (hds : ∀ d ∈ c :: cs, isDigit d)
    (hrest : HeadFails isNumberPart rest) :
    cut c (cs ++ rest) = ⟨.lexeme .int (String.ofList (c :: cs)), c :: cs, rest⟩ := by
  have hc : isDigit c := hds c (by simp)
  have hcs : ∀ d ∈ cs, isDigit d := fun d hd => hds d (by simp [hd])
  have hdigit : HeadFails isDigit rest := by
    intro d hd
    have hpart := hrest d hd
    simp only [isNumberPart, Bool.or_eq_false_iff] at hpart
    exact hpart.1
  -- What follows the digits is no digit, so exactly these are taken, and no point, so no fraction
  -- is tried.
  unfold cut cutNumber
  rw [takeWhile_append_of_headFails hcs hdigit, dropWhile_append_of_headFails hcs hdigit]
  simp only [not_isBlank_of_isDigit hc, hc, Bool.false_eq_true, if_true, if_false]
  split
  · simp [isNumberPart] at hrest
  · rfl

theorem cut_fraction {c : Char} {cs fs rest : List Char} (hds : ∀ d ∈ c :: cs, isDigit d)
    (hfs : ∀ d ∈ fs, isDigit d) (hrest : HeadFails isDigit rest) :
    cut c (cs ++ '.' :: fs ++ rest) =
      ⟨.lexeme .float (String.ofList (c :: cs ++ '.' :: fs)), c :: cs ++ '.' :: fs, rest⟩ := by
  have hc : isDigit c := hds c (by simp)
  have hcs : ∀ d ∈ cs, isDigit d := fun d hd => hds d (by simp [hd])
  have hpoint : HeadFails isDigit ('.' :: (fs ++ rest)) := by
    simp
    decide
  unfold cut cutNumber
  rw [List.append_assoc, List.cons_append, takeWhile_append_of_headFails hcs hpoint,
    dropWhile_append_of_headFails hcs hpoint]
  simp only [not_isBlank_of_isDigit hc, hc, Bool.false_eq_true, if_true, if_false,
    takeWhile_append_of_headFails hfs hrest, dropWhile_append_of_headFails hfs hrest,
    List.cons_append]

theorem cut_word {c : Char} {cs rest : List Char} {word : String} (hc : isWordStart c)
    (hcs : ∀ d ∈ cs, isWordPart d) (hword : word = String.ofList ((c :: cs).map lowerChar))
    (hrest : HeadFails isWordPart rest) :
    cut c (cs ++ rest) = ⟨.lexeme (wordKind word) word, c :: cs, rest⟩ := by
  unfold cut cutWord
  rw [takeWhile_append_of_headFails hcs hrest, dropWhile_append_of_headFails hcs hrest]
  simp only [not_isBlank_of_isWordStart hc, not_isDigit_of_isWordStart hc, hc, hword,
    Bool.false_eq_true, if_true, if_false]

theorem cut_string {body rest : List Char} (hbody : '"' ∉ body) :
    cut '"' (body ++ '"' :: rest) =
      ⟨.lexeme .string (String.ofList body), '"' :: body ++ ['"'], rest⟩ := by
  have hparts : ∀ c ∈ body, (c != '"') := by
    intro c hc
    have hne : c ≠ '"' := fun heq => hbody (heq ▸ hc)
    simpa using hne
  have hend : HeadFails (· != '"') ('"' :: rest) := by simp
  change cutString (body ++ '"' :: rest) = _
  unfold cutString
  rw [takeWhile_append_of_headFails hparts hend, dropWhile_append_of_headFails hparts hend]

theorem cut_openString {body : List Char} (hbody : '"' ∉ body) :
    cut '"' body = ⟨.openString, '"' :: body, []⟩ := by
  have hparts : ∀ c ∈ body, (c != '"') := by
    intro c hc
    have hne : c ≠ '"' := fun heq => hbody (heq ▸ hc)
    simpa using hne
  change cutString body = _
  unfold cutString
  rw [List.dropWhile_eq_nil_iff.2 hparts]

theorem cutComparison_single {c : Char} {single double : Kind} {rest : List Char}
    (hrest : rest.head? ≠ some '=') :
    cutComparison c single double rest = ⟨.lexeme single (String.ofList [c]), [c], rest⟩ := by
  unfold cutComparison
  split
  · simp at hrest
  · rfl

theorem cut_operator {c : Char} {cs rest : List Char} {kind : Kind}
    (hmem : (c :: cs, kind) ∈ operatorKinds) (hlong : Longest .operator (c :: cs) rest) :
    cut c (cs ++ rest) = ⟨.lexeme kind (String.ofList (c :: cs)), c :: cs, rest⟩ := by
  -- Of the operators of one character only these can be lengthened.
  have hend : (∃ kind, ([c, '='], kind) ∈ operatorKinds) → cs = [] → rest.head? ≠ some '=' := by
    rintro ⟨kind, hdouble⟩ rfl heq
    rcases List.head?_eq_some_iff.1 heq with ⟨tail, rfl⟩
    exact hlong ['='] (by simp) ⟨tail, rfl⟩ kind _ (.operator hdouble)
  simp only [operatorKinds, List.mem_cons, Prod.mk.injEq, List.cons.injEq, List.not_mem_nil,
    or_false] at hmem
  rcases hmem with h | h | h | h | h | h | h | h | h | h | h | h | h | h | h | h | h | h | h | h
  all_goals rcases h with ⟨⟨rfl, rfl⟩, rfl⟩
  case inr.inr.inr.inr.inl => exact cutComparison_single (hend ⟨.equal, by decide⟩ rfl)
  case inr.inr.inr.inr.inr.inl => exact cutComparison_single (hend ⟨.lessEqual, by decide⟩ rfl)
  case inr.inr.inr.inr.inr.inr.inl =>
    exact cutComparison_single (hend ⟨.greaterEqual, by decide⟩ rfl)
  all_goals rfl

theorem cut_of_lexeme {cls : LexClass} {c : Char} {cs text rest : List Char} {kind : Kind}
    {literal : String} (hsource : c :: cs = text ++ rest) (hlex : Lexeme cls text kind literal)
    (hlong : Longest cls text rest) : cut c cs = ⟨.lexeme kind literal, text, rest⟩ := by
  -- Each class ends in its own way; the longest match says that the text after it cannot go on.
  cases hlex with
  | integer hne hds =>
      have hend := (longest_integer_iff hne hds).1 hlong
      cases text with
      | nil => exact absurd rfl hne
      | cons d ds =>
          rcases List.cons.inj hsource with ⟨rfl, rfl⟩
          exact cut_integer hds hend
  | @fraction ds fs hne hds hfs =>
      have hend := (longest_fraction_iff hne hds hfs).1 hlong
      cases ds with
      | nil => exact absurd rfl hne
      | cons d ds =>
          rcases List.cons.inj hsource with ⟨rfl, rfl⟩
          exact cut_fraction hds hfs hend
  | word hstart hparts hword =>
      rcases List.cons.inj hsource with ⟨rfl, rfl⟩
      rw [tableKind_eq]
      exact cut_word hstart hparts hword ((longest_word_iff hstart hparts).1 hlong)
  | operator hmem =>
      cases text with
      | nil => exact absurd hmem (by simp [operatorKinds])
      | cons d text =>
          rcases List.cons.inj hsource with ⟨rfl, rfl⟩
          exact cut_operator hmem hlong
  | @string body hbody =>
      have htail : cs = body ++ '"' :: rest := by simpa using (List.cons.inj hsource).2
      rw [(List.cons.inj hsource).1, htail]
      exact cut_string hbody

theorem cut_stray {c : Char} {cs : List Char} (hblank : isBlank c = false)
    (hnone : ∀ cls more kind literal, ¬ Lexeme cls (c :: more) kind literal) :
    cut c cs = ⟨.bad (.strayCharacter c), [c], cs⟩ := by
  -- Whatever else could be cut would be a lexeme that begins with `c`.
  generalize hcut : cut c cs = k
  have hstands := stands_cut c cs
  rw [hcut] at hstands
  generalize hsource : c :: cs = source at hstands
  cases hstands with
  | blank h =>
      rw [← (List.cons.inj hsource).1, hblank] at h
      contradiction
  | @lexeme cls text rest kind literal hlex _ =>
      cases text with
      | nil => exact absurd hlex.ne_nil (by simp)
      | cons d text =>
          rw [← (List.cons.inj hsource).1] at hlex
          exact absurd hlex (hnone cls text kind literal)
  | openString _ =>
      rw [(List.cons.inj hsource).1] at hnone
      have hempty : Lexeme .string ('"' :: [] ++ ['"']) .string (String.ofList []) :=
        .string (by simp)
      exact absurd hempty (hnone .string ['"'] .string _)
  | loneBang _ =>
      rw [(List.cons.inj hsource).1] at hnone
      exact absurd (.operator (by decide)) (hnone .operator ['='] .notEqual _)
  | stray _ _ => rcases List.cons.inj hsource with ⟨rfl, rfl⟩; rfl

/-- What stands at the head of a source is what is cut from it. -/
theorem cut_eq_of_stands {c : Char} {cs : List Char} {k : Cut} (h : Stands (c :: cs) k) :
    cut c cs = k := by
  generalize hsource : c :: cs = source at h
  cases h with
  | blank hblank =>
      rcases List.cons.inj hsource with ⟨rfl, rfl⟩
      simp [cut, hblank]
  | lexeme hlex hlong => exact cut_of_lexeme hsource hlex hlong
  | openString hbody =>
      rcases List.cons.inj hsource with ⟨rfl, rfl⟩
      exact cut_openString hbody
  | loneBang hend =>
      rcases List.cons.inj hsource with ⟨rfl, rfl⟩
      change cutSymbol '!' cs = _
      rw [cutSymbol]
      intro rest heq
      exact hend (by simp [heq])
  | stray hblank hnone =>
      rcases List.cons.inj hsource with ⟨rfl, rfl⟩
      exact cut_stray hblank hnone

end Reckoner
