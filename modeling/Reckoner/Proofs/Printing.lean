import Reckoner.Expr.Printer
import Reckoner.Proofs.Numeral
import Reckoner.Proofs.Parser.Language
import Reckoner.Proofs.Places
import Reckoner.Proofs.Splitting

/-!
# Printed trees

The text of a tree is made of lexemes with blanks between them. No lexeme goes on with what is
printed behind it, so the text splits into the lexemes that were printed.

* `Delimits` — the characters behind a printed piece do not go on with its last lexeme;
* `Prints` — the pieces of a printed tree;
* `SplitsInto` — a text that splits into pieces in front of any delimiter;
* `splitsInto_assign`, `splitsInto_loop` and their companions — the text of each construct;
* `Prints.splits` — the text of a tree splits into its pieces.
-/

namespace Reckoner

open Text

/-! ## Lexemes in printed text -/

/-- The source is at its end, or goes on with a blank or a closing parenthesis. -/
def Delimits (rest : List Char) : Prop :=
  ∀ c ∈ rest.head?, c = ' ' ∨ c = '\n' ∨ c = ')'

@[simp] theorem delimits_nil : Delimits [] := by
  simp [Delimits]

@[simp] theorem delimits_cons {c : Char} {cs : List Char} :
    Delimits (c :: cs) ↔ c = ' ' ∨ c = '\n' ∨ c = ')' := by
  simp [Delimits]

theorem Delimits.headFails {rest : List Char} {p : Char → Bool} (h : Delimits rest)
    (hp : p ' ' = false ∧ p '\n' = false ∧ p ')' = false) : HeadFails p rest := by
  intro c hc
  rcases h c hc with rfl | rfl | rfl
  · exact hp.1
  · exact hp.2.1
  · exact hp.2.2

/-- In front of a delimiter every lexeme is as long as it can be. -/
theorem Lexeme.longest_of_delimits {cls : LexClass} {text rest : List Char} {kind : Kind}
    {literal : String} (hlex : Lexeme cls text kind literal) (hrest : Delimits rest) :
    Longest cls text rest := by
  cases hlex with
  | integer hne hds => exact (longest_integer_iff hne hds).2 (hrest.headFails (by decide))
  | fraction hne hds hfs =>
      exact (longest_fraction_iff hne hds hfs).2 (hrest.headFails (by decide))
  | word hc hcs _ => exact (longest_word_iff hc hcs).2 (hrest.headFails (by decide))
  | operator hmem =>
      -- Only an equals sign makes an operator longer, and it is no delimiter.
      have hend : rest.head? ≠ some '=' := by
        intro heq
        rcases hrest '=' heq with h | h | h <;> exact absurd h (by decide)
      match text, hmem with
      | [], hmem => simp [operatorKinds] at hmem
      | [a], _ => exact longest_operator hend
      | [a, c], _ => exact longest_operator_pair
      | a :: c :: d :: more, hmem => simp [operatorKinds] at hmem
  | string _ => exact longest_string

/-- What a lexeme stands for can be written for it, strings apart. -/
theorem Lexeme.of_literal {cls : LexClass} {text : List Char} {kind : Kind} {literal : String}
    (hlex : Lexeme cls text kind literal) (hkind : kind ≠ .string) :
    Lexeme cls literal.toList kind literal := by
  cases hlex with
  | integer hne hds =>
      rw [String.toList_ofList]
      exact .integer hne hds
  | fraction hne hds hfs =>
      rw [String.toList_ofList]
      exact .fraction hne hds hfs
  | @word c cs _ hc hcs hword =>
      -- The literal is the word in lower case, whose lower case is itself.
      have hlower : ∀ d ∈ cs.map lowerChar, isWordPart d := by
        intro d hd
        rcases List.mem_map.1 hd with ⟨d', hd', rfl⟩
        exact isWordPart_lowerChar (hcs d' hd')
      have htext : literal.toList = lowerChar c :: cs.map lowerChar := by
        rw [hword, String.toList_ofList, List.map_cons]
      rw [htext]
      refine .word (isWordStart_lowerChar hc) hlower ?_
      have hidem : lowerChar ∘ lowerChar = lowerChar := funext lowerChar_lowerChar
      rw [hword, List.map_cons, List.map_cons, List.map_map, hidem, lowerChar_lowerChar]
  | operator hmem =>
      rw [String.toList_ofList]
      exact .operator hmem
  | string _ => exact absurd rfl hkind

/-- A small letter of ASCII. -/
def isSmallLetter (c : Char) : Bool :=
  'a' ≤ c && c ≤ 'z'

theorem isSmallLetter_iff {c : Char} : isSmallLetter c ↔ 97 ≤ c.toNat ∧ c.toNat ≤ 122 := by
  simp [isSmallLetter, Char.le_def, UInt32.le_iff_toNat_le]

theorem lowerChar_of_isSmallLetter {c : Char} (h : isSmallLetter c) : lowerChar c = c := by
  have hrange := isSmallLetter_iff.1 h
  rw [lowerChar, if_neg (by rw [capital_iff]; omega), if_pos (by omega)]

theorem isLetter_of_isSmallLetter {c : Char} (h : isSmallLetter c) : isLetter c :=
  isLetter_iff.2 (.inl (isAsciiLetter_iff.2 (.inl (isSmallLetter_iff.1 h))))

theorem lexeme_of_smallLetters {word : String} (hne : word.toList ≠ [])
    (hletters : word.toList.all isSmallLetter) :
    Lexeme .word word.toList (wordKind word) word := by
  have hword : word = String.ofList word.toList := String.ofList_toList.symm
  -- Small letters are their own lower case, so the word is its own literal.
  generalize word.toList = cs at hne hletters hword
  have hall := List.all_eq_true.1 hletters
  cases cs with
  | nil => exact absurd rfl hne
  | cons c cs =>
      refine .ofWord ?_ ?_ ?_
      · simp [isWordStart, isLetter_of_isSmallLetter (hall c (by simp))]
      · intro d hd
        simp [isWordPart, isLetter_of_isSmallLetter (hall d (by simp [hd]))]
      · have hsame : (c :: cs).map lowerChar = (c :: cs).map id :=
          List.map_congr_left fun d hd => lowerChar_of_isSmallLetter (hall d hd)
        rw [hsame, List.map_id, hword]

/-- The keywords that are printed. -/
def printedKeywords : List String :=
  ["not", "if", "then", "elif", "else", "endif", "switch", "case", "default", "endswitch",
    "while", "endwhile"]

theorem lexeme_keyword {word : String} (h : word ∈ printedKeywords) :
    Lexeme .word word.toList .keyword word := by
  have hall : ∀ word ∈ printedKeywords,
      word.toList ≠ [] ∧ word.toList.all isSmallLetter ∧ wordKind word = .keyword := by
    decide
  rcases hall word h with ⟨hne, hletters, hkind⟩
  rw [← hkind]
  exact lexeme_of_smallLetters hne hletters

theorem lexeme_symbol {c : Char} {kind : Kind} (h : symbolKind? c = some kind) (rest : List Char) :
    Lexeme .operator [c] kind (String.ofList [c]) ∧ Longest .operator [c] rest :=
  ⟨.operator (symbolKind?_eq_some h).1, longest_symbol (symbolKind?_eq_some h).2⟩

/-! ## Pieces of printed text -/

/-- A lexeme written as its literal. -/
def Segment.mark (kind : Kind) (literal : String) : Segment :=
  .lexeme literal.toList kind literal

/-- The blank between two lexemes. -/
def Segment.gap : Segment :=
  .blank ' '

/-- Pieces in parentheses. -/
def Segment.inParens (segments : List Segment) : List Segment :=
  .mark .openParen "(" :: segments ++ [.mark .closeParen ")"]

theorem Splits.append {a b c : List Char} {first second : List Segment} (h : Splits a first b)
    (h' : Splits b second c) : Splits a (first ++ second) c := by
  induction h with
  | done => exact h'
  | blank hblank _ ih => exact .blank hblank (ih h')
  | lexeme hlex hlong _ ih => exact .lexeme hlex hlong (ih h')
  | unclosed hbody =>
      -- Nothing can follow a string that is never closed.
      generalize hnil : ([] : List Char) = source at h'
      cases h' with
      | done => exact hnil ▸ .unclosed hbody
      | lexeme hlex _ _ => exact absurd (List.append_eq_nil_iff.1 hnil.symm).1 hlex.ne_nil
      | _ => cases hnil

theorem Splits.gap {cs rest : List Char} {segments : List Segment} (h : Splits cs segments rest) :
    Splits (' ' :: cs) (.gap :: segments) rest :=
  .blank (by decide) h

/-- A lexeme in front of a delimiter. -/
theorem Splits.mark {cls : LexClass} {kind : Kind} {literal : String} {cs rest : List Char}
    {segments : List Segment} (hlex : Lexeme cls literal.toList kind literal) (hcs : Delimits cs)
    (h : Splits cs segments rest) :
    Splits (literal.toList ++ cs) (.mark kind literal :: segments) rest :=
  .lexeme hlex (hlex.longest_of_delimits hcs) h

/-! ## The pieces of a printed tree -/

/-- The pieces of a printed tree. -/
inductive Prints : (s : Symbol) → s.Tree → List Segment → Prop where
  | number {n : Number} {pos : Position} :
      n.Prints → Prints (.phrase .atom) (.num n pos) [.mark n.literalKind n.text]
  | named {cls : LexClass} {name : String} {pos : Position} :
      Lexeme cls name.toList .identifier name →
        Prints (.phrase .atom) (.var name pos) [.mark .identifier name]
  | assign {cls : LexClass} {name : String} {pos : Position} {e : Expr} {es : List Segment} :
      Lexeme cls name.toList .identifier name → Prints (.phrase .atom) e es →
        Prints (.phrase .atom) (.assign name pos e)
          (Segment.inParens (.mark .identifier name :: .gap :: .mark .assign "=" :: .gap :: es))
  | joined {cls : LexClass} {level : Level} {op : Operator} {left right : Expr}
      {ls rs : List Segment} :
      (∀ p, Joins level ⟨op.kind, op.literal, p⟩) →
        Lexeme cls op.literal.toList op.kind op.literal →
        Prints (.phrase .atom) left ls → Prints (.phrase .atom) right rs →
          Prints (.phrase .atom) (.binary op left right)
            (Segment.inParens (ls ++ .gap :: .mark op.kind op.literal :: .gap :: rs))
  | signed {op : Operator} {e : Expr} {es : List Segment} :
      op ∈ [⟨.plus, "+"⟩, ⟨.minus, "-"⟩] → Prints (.phrase .atom) e es →
        Prints (.phrase .atom) (.unary op e)
          (Segment.inParens (.mark op.kind op.literal :: es))
  | negated {e : Expr} {es : List Segment} :
      Prints (.phrase .atom) e es →
        Prints (.phrase .atom) (.unary ⟨.keyword, "not"⟩ e)
          (Segment.inParens (.mark .keyword "not" :: .gap :: es))
  | choose {pos : Position} {condition body : Expr} {arms : Arms} {cs rs : List Segment} :
      Prints .conditional (condition, body) cs → Prints .chooseArms arms rs →
        Prints (.phrase .atom) (.choose pos (.arm condition body arms))
          (.mark .keyword "if" :: .gap :: (cs ++ rs))
  | select {pos : Position} {subject : Expr} {arms : Arms} {es rs : List Segment} :
      Prints (.phrase .atom) subject es → Prints .selectArms arms rs →
        Prints (.phrase .atom) (.select pos subject arms)
          (.mark .keyword "switch" :: .gap :: (es ++ rs))
  | loop {pos : Position} {condition : Expr} {body : List Expr} {cs bs : List Segment} :
      Prints (.phrase .atom) condition cs → Prints .statements body bs →
        Prints (.phrase .atom) (.loop pos condition body)
          (.mark .keyword "while" :: .gap :: (Segment.inParens cs ++
            .gap :: .mark .keyword "then" :: (bs ++ [.gap, .mark .keyword "endwhile"])))
  | conditional {condition body : Expr} {cs bs : List Segment} :
      Prints (.phrase .atom) condition cs → Prints (.phrase .atom) body bs →
        Prints .conditional (condition, body)
          (Segment.inParens cs ++ .gap :: .mark .keyword "then" :: .gap :: bs)
  | endif : Prints .chooseArms .none [.gap, .mark .keyword "endif"]
  | otherwise {e : Expr} {es : List Segment} :
      Prints (.phrase .atom) e es →
        Prints .chooseArms (.otherwise e)
          (.gap :: .mark .keyword "else" :: .gap :: (es ++ [.gap, .mark .keyword "endif"]))
  | elif {condition body : Expr} {arms : Arms} {cs rs : List Segment} :
      Prints .conditional (condition, body) cs → Prints .chooseArms arms rs →
        Prints .chooseArms (.arm condition body arms)
          (.gap :: .mark .keyword "elif" :: .gap :: (cs ++ rs))
  | endswitch : Prints .selectArms .none [.gap, .mark .keyword "endswitch"]
  | default {e : Expr} {es : List Segment} :
      Prints (.phrase .atom) e es →
        Prints .selectArms (.otherwise e)
          (.gap :: .mark .keyword "default" :: .gap :: .mark .colon ":" :: .gap ::
            (es ++ [.gap, .mark .keyword "endswitch"]))
  | case {guard body : Expr} {arms : Arms} {gs bs rs : List Segment} :
      Prints (.phrase .atom) guard gs → Prints (.phrase .atom) body bs →
        Prints .selectArms arms rs →
          Prints .selectArms (.arm guard body arms)
            (.gap :: .mark .keyword "case" :: .gap ::
              (gs ++ .gap :: .mark .colon ":" :: .gap :: (bs ++ rs)))
  | nil : Prints .statements [] []
  | cons {e : Expr} {es : List Expr} {first rest : List Segment} :
      Prints (.phrase .atom) e first → Prints .statements es rest →
        Prints .statements (e :: es) (.gap :: (first ++ rest))

/-- The text of a part of the grammar, with the word that closes it. -/
def Symbol.text : (s : Symbol) → s.Tree → String
  | .phrase _, e => Expr.text e
  | .conditional, (condition, body) => "(" ++ condition.text ++ ") then " ++ body.text
  | .chooseArms, arms => Arms.chooseText arms " elif (" ++ " endif"
  | .selectArms, arms => Arms.selectText arms ++ " endswitch"
  | .statements, es => Expr.bodyText es

/-! ## The text splits into its pieces -/

/-- Arms and further statements are divided from what stands before them. -/
theorem Arms.delimits_chooseText (arms : Arms) (rest : List Char) :
    Delimits ((Symbol.text .chooseArms arms).toList ++ rest) := by
  cases arms <;> simp [Symbol.text, Arms.chooseText]

theorem Arms.delimits_selectText (arms : Arms) (rest : List Char) :
    Delimits ((Symbol.text .selectArms arms).toList ++ rest) := by
  cases arms <;> simp [Symbol.text, Arms.selectText]

theorem Expr.delimits_bodyText (es : List Expr) {rest : List Char} (hrest : Delimits rest) :
    Delimits ((Symbol.text .statements es).toList ++ rest) := by
  cases es with
  | nil => simpa [Symbol.text, Expr.bodyText] using hrest
  | cons e es => simp [Symbol.text, Expr.bodyText]

theorem lexeme_colon : Lexeme .operator ":".toList .colon ":" :=
  .operator (by decide)

theorem lexeme_equals : Lexeme .operator "=".toList .assign "=" :=
  .operator (by decide)

/-- In front of anything that delimits it the text splits into the pieces. -/
def SplitsInto (text : List Char) (segments : List Segment) : Prop :=
  ∀ rest, Delimits rest → Splits (text ++ rest) segments rest

namespace SplitsInto

variable {text first second : List Char} {es fs ss : List Segment}

theorem mark {cls : LexClass} {kind : Kind} {literal : String}
    (h : Lexeme cls literal.toList kind literal) :
    SplitsInto literal.toList [.mark kind literal] :=
  fun _ hrest => .mark h hrest .done

theorem keyword {word : String} (h : word ∈ printedKeywords) :
    SplitsInto word.toList [.mark .keyword word] :=
  .mark (lexeme_keyword h)

theorem gap (h : SplitsInto text es) : SplitsInto (' ' :: text) (.gap :: es) :=
  fun rest hrest => (h rest hrest).gap

/-- One text behind another that it delimits. -/
theorem beside (h : SplitsInto first fs)
    (hdelimits : ∀ rest, Delimits rest → Delimits (second ++ rest)) (h' : SplitsInto second ss) :
    SplitsInto (first ++ second) (fs ++ ss) := by
  intro rest hrest
  rw [List.append_assoc]
  exact (h _ (hdelimits rest hrest)).append (h' rest hrest)

/-- Two texts with a blank between them. -/
theorem spaced (h : SplitsInto first fs) (h' : SplitsInto second ss) :
    SplitsInto (first ++ ' ' :: second) (fs ++ .gap :: ss) :=
  h.beside (fun rest _ => by simp) h'.gap

theorem inParens (h : SplitsInto text es) :
    SplitsInto ('(' :: (text ++ [')'])) (Segment.inParens es) := by
  intro rest _
  have hopen := lexeme_symbol (c := '(') rfl (text ++ ')' :: rest)
  have hclose := lexeme_symbol (c := ')') rfl rest
  have hinside : Splits (text ++ ')' :: rest) (es ++ [.mark .closeParen ")"]) rest :=
    (h _ (by simp)).append (.lexeme hclose.1 hclose.2 .done)
  rw [List.cons_append, List.append_assoc]
  exact .lexeme hopen.1 hopen.2 hinside

/-- A sign in front of any text: no sign grows with what follows. -/
theorem sign {op : Operator} (hop : op ∈ [⟨.plus, "+"⟩, ⟨.minus, "-"⟩]) (h : SplitsInto text es) :
    SplitsInto (op.literal.toList ++ text) (.mark op.kind op.literal :: es) := by
  intro rest hrest
  simp only [List.mem_cons, List.not_mem_nil, or_false] at hop
  rcases hop with rfl | rfl
  · have hsymbol := lexeme_symbol (c := '+') rfl (text ++ rest)
    exact .lexeme hsymbol.1 hsymbol.2 (h rest hrest)
  · have hsymbol := lexeme_symbol (c := '-') rfl (text ++ rest)
    exact .lexeme hsymbol.1 hsymbol.2 (h rest hrest)

end SplitsInto

/-! The text of each construct is first written as those of its parts, with what stands between
them. -/

section Texts

variable {cls : LexClass} {name : String} {op : Operator} (pos : Position)
  {e left right condition body : Expr} {arms : Arms} {statements : List Expr}
  {es fs ss : List Segment}

theorem splitsInto_assign (hname : Lexeme cls name.toList .identifier name)
    (he : SplitsInto e.text.toList es) :
    SplitsInto (Expr.text (.assign name pos e)).toList
      (Segment.inParens (.mark .identifier name :: .gap :: .mark .assign "=" :: .gap :: es)) := by
  have htext : (Expr.text (.assign name pos e)).toList =
      '(' :: ((name.toList ++ ' ' :: ("=".toList ++ ' ' :: e.text.toList)) ++ [')']) := by
    simp [Expr.text]
  rw [htext]
  exact .inParens ((SplitsInto.mark hname).spaced ((SplitsInto.mark lexeme_equals).spaced he))

theorem splitsInto_joined (hop : Lexeme cls op.literal.toList op.kind op.literal)
    (hleft : SplitsInto left.text.toList fs) (hright : SplitsInto right.text.toList ss) :
    SplitsInto (Expr.text (.binary op left right)).toList
      (Segment.inParens (fs ++ .gap :: .mark op.kind op.literal :: .gap :: ss)) := by
  have htext : (Expr.text (.binary op left right)).toList =
      '(' :: ((left.text.toList ++ ' ' :: (op.literal.toList ++ ' ' :: right.text.toList)) ++
        [')']) := by
    simp [Expr.text]
  rw [htext]
  exact .inParens (hleft.spaced ((SplitsInto.mark hop).spaced hright))

theorem splitsInto_signed (hop : op ∈ [⟨.plus, "+"⟩, ⟨.minus, "-"⟩])
    (he : SplitsInto e.text.toList es) :
    SplitsInto (Expr.text (.unary op e)).toList
      (Segment.inParens (.mark op.kind op.literal :: es)) := by
  have hkind : op.kind ≠ .keyword := by
    simp only [List.mem_cons, List.not_mem_nil, or_false] at hop
    rcases hop with rfl | rfl <;> decide
  have htext : (Expr.text (.unary op e)).toList =
      '(' :: ((op.literal.toList ++ e.text.toList) ++ [')']) := by
    simp [Expr.text, hkind]
  rw [htext]
  exact .inParens (.sign hop he)

theorem splitsInto_negated (he : SplitsInto e.text.toList es) :
    SplitsInto (Expr.text (.unary ⟨.keyword, "not"⟩ e)).toList
      (Segment.inParens (.mark .keyword "not" :: .gap :: es)) := by
  have htext : (Expr.text (.unary ⟨.keyword, "not"⟩ e)).toList =
      '(' :: (("not".toList ++ ' ' :: e.text.toList) ++ [')']) := by
    simp [Expr.text]
  rw [htext]
  exact .inParens ((SplitsInto.keyword (by decide)).spaced he)

theorem splitsInto_choose
    (hfirst : SplitsInto (Symbol.text .conditional (condition, body)).toList fs)
    (hothers : SplitsInto (Symbol.text .chooseArms arms).toList ss) :
    SplitsInto (Expr.text (.choose pos (.arm condition body arms))).toList
      (.mark .keyword "if" :: .gap :: (fs ++ ss)) := by
  have htext : (Expr.text (.choose pos (.arm condition body arms))).toList =
      "if".toList ++ ' ' :: ((Symbol.text .conditional (condition, body)).toList ++
        (Symbol.text .chooseArms arms).toList) := by
    simp [Symbol.text, Expr.text, Arms.chooseText]
  rw [htext]
  refine (SplitsInto.keyword (by decide)).spaced (hfirst.beside ?_ hothers)
  exact fun rest _ => arms.delimits_chooseText rest

theorem splitsInto_select (hsubject : SplitsInto e.text.toList fs)
    (hothers : SplitsInto (Symbol.text .selectArms arms).toList ss) :
    SplitsInto (Expr.text (.select pos e arms)).toList
      (.mark .keyword "switch" :: .gap :: (fs ++ ss)) := by
  have htext : (Expr.text (.select pos e arms)).toList =
      "switch".toList ++ ' ' :: (e.text.toList ++ (Symbol.text .selectArms arms).toList) := by
    simp [Symbol.text, Expr.text]
  rw [htext]
  refine (SplitsInto.keyword (by decide)).spaced (hsubject.beside ?_ hothers)
  exact fun rest _ => arms.delimits_selectText rest

theorem splitsInto_loop (hcondition : SplitsInto condition.text.toList fs)
    (hbody : SplitsInto (Symbol.text .statements statements).toList ss) :
    SplitsInto (Expr.text (.loop pos condition statements)).toList
      (.mark .keyword "while" :: .gap :: (Segment.inParens fs ++
        .gap :: .mark .keyword "then" :: (ss ++ [.gap, .mark .keyword "endwhile"]))) := by
  have htext : (Expr.text (.loop pos condition statements)).toList =
      "while".toList ++ ' ' :: ('(' :: (condition.text.toList ++ [')']) ++ ' ' :: ("then".toList ++
        ((Symbol.text .statements statements).toList ++ ' ' :: "endwhile".toList))) := by
    simp [Symbol.text, Expr.text]
  rw [htext]
  -- A body without statements is empty: then the blank of the closing word delimits "then".
  have hclosed : SplitsInto _ (ss ++ [.gap, .mark .keyword "endwhile"]) :=
    hbody.spaced (.keyword (by decide))
  refine (SplitsInto.keyword (by decide)).spaced (hcondition.inParens.spaced ?_)
  refine (SplitsInto.keyword (by decide)).beside (fun rest _ => ?_) hclosed
  rw [List.append_assoc]
  exact Expr.delimits_bodyText statements (by simp)

theorem splitsInto_conditional (hcondition : SplitsInto condition.text.toList fs)
    (hbody : SplitsInto body.text.toList ss) :
    SplitsInto (Symbol.text .conditional (condition, body)).toList
      (Segment.inParens fs ++ .gap :: .mark .keyword "then" :: .gap :: ss) := by
  have htext : (Symbol.text .conditional (condition, body)).toList =
      '(' :: (condition.text.toList ++ [')']) ++ ' ' :: ("then".toList ++
        ' ' :: body.text.toList) := by
    simp [Symbol.text]
  rw [htext]
  exact hcondition.inParens.spaced ((SplitsInto.keyword (by decide)).spaced hbody)

theorem splitsInto_endif :
    SplitsInto (Symbol.text .chooseArms .none).toList [.gap, .mark .keyword "endif"] := by
  have htext : (Symbol.text .chooseArms .none).toList = ' ' :: "endif".toList := by
    simp [Symbol.text, Arms.chooseText]
  rw [htext]
  exact .gap (.keyword (by decide))

theorem splitsInto_otherwise (he : SplitsInto e.text.toList es) :
    SplitsInto (Symbol.text .chooseArms (.otherwise e)).toList
      (.gap :: .mark .keyword "else" :: .gap :: (es ++ [.gap, .mark .keyword "endif"])) := by
  have htext : (Symbol.text .chooseArms (.otherwise e)).toList =
      ' ' :: ("else".toList ++ ' ' :: (e.text.toList ++ ' ' :: "endif".toList)) := by
    simp [Symbol.text, Arms.chooseText]
  rw [htext]
  exact .gap ((SplitsInto.keyword (by decide)).spaced (he.spaced (.keyword (by decide))))

theorem splitsInto_elif
    (hfirst : SplitsInto (Symbol.text .conditional (condition, body)).toList fs)
    (hothers : SplitsInto (Symbol.text .chooseArms arms).toList ss) :
    SplitsInto (Symbol.text .chooseArms (.arm condition body arms)).toList
      (.gap :: .mark .keyword "elif" :: .gap :: (fs ++ ss)) := by
  have htext : (Symbol.text .chooseArms (.arm condition body arms)).toList =
      ' ' :: ("elif".toList ++ ' ' :: ((Symbol.text .conditional (condition, body)).toList ++
        (Symbol.text .chooseArms arms).toList)) := by
    simp [Symbol.text, Arms.chooseText]
  rw [htext]
  refine .gap ((SplitsInto.keyword (by decide)).spaced (hfirst.beside ?_ hothers))
  exact fun rest _ => arms.delimits_chooseText rest

theorem splitsInto_endswitch :
    SplitsInto (Symbol.text .selectArms .none).toList [.gap, .mark .keyword "endswitch"] := by
  have htext : (Symbol.text .selectArms .none).toList = ' ' :: "endswitch".toList := by
    simp [Symbol.text, Arms.selectText]
  rw [htext]
  exact .gap (.keyword (by decide))

theorem splitsInto_default (he : SplitsInto e.text.toList es) :
    SplitsInto (Symbol.text .selectArms (.otherwise e)).toList
      (.gap :: .mark .keyword "default" :: .gap :: .mark .colon ":" :: .gap ::
        (es ++ [.gap, .mark .keyword "endswitch"])) := by
  have htext : (Symbol.text .selectArms (.otherwise e)).toList =
      ' ' :: ("default".toList ++ ' ' :: (":".toList ++
        ' ' :: (e.text.toList ++ ' ' :: "endswitch".toList))) := by
    simp [Symbol.text, Arms.selectText]
  rw [htext]
  refine .gap ((SplitsInto.keyword (by decide)).spaced ?_)
  exact (SplitsInto.mark lexeme_colon).spaced (he.spaced (.keyword (by decide)))

theorem splitsInto_case (hguard : SplitsInto e.text.toList es)
    (hbody : SplitsInto body.text.toList fs)
    (hothers : SplitsInto (Symbol.text .selectArms arms).toList ss) :
    SplitsInto (Symbol.text .selectArms (.arm e body arms)).toList
      (.gap :: .mark .keyword "case" :: .gap ::
        (es ++ .gap :: .mark .colon ":" :: .gap :: (fs ++ ss))) := by
  have htext : (Symbol.text .selectArms (.arm e body arms)).toList =
      ' ' :: ("case".toList ++ ' ' :: (e.text.toList ++ ' ' :: (":".toList ++
        ' ' :: (body.text.toList ++ (Symbol.text .selectArms arms).toList)))) := by
    simp [Symbol.text, Arms.selectText]
  rw [htext]
  refine .gap ((SplitsInto.keyword (by decide)).spaced (hguard.spaced ?_))
  refine (SplitsInto.mark lexeme_colon).spaced (hbody.beside ?_ hothers)
  exact fun rest _ => arms.delimits_selectText rest

theorem splitsInto_cons (hfirst : SplitsInto e.text.toList fs)
    (hothers : SplitsInto (Symbol.text .statements statements).toList ss) :
    SplitsInto (Symbol.text .statements (e :: statements)).toList (.gap :: (fs ++ ss)) := by
  have htext : (Symbol.text .statements (e :: statements)).toList =
      ' ' :: (e.text.toList ++ (Symbol.text .statements statements).toList) := by
    simp [Symbol.text, Expr.bodyText]
  rw [htext]
  exact .gap (hfirst.beside (fun _ => Expr.delimits_bodyText statements) hothers)

end Texts

/-- The text of a printed tree splits into its pieces. -/
theorem Prints.splits {s : Symbol} {tree : s.Tree} {segments : List Segment}
    (h : Prints s tree segments) : SplitsInto (s.text tree).toList segments := by
  induction h with
  | number hn => exact .mark hn.1
  | named hname => exact .mark hname
  | @assign _ _ pos _ _ hname _ ih => exact splitsInto_assign pos hname ih
  | joined _ hop _ _ ihleft ihright => exact splitsInto_joined hop ihleft ihright
  | signed hop _ ih => exact splitsInto_signed hop ih
  | negated _ ih => exact splitsInto_negated ih
  | @choose pos _ _ _ _ _ _ _ ihfirst ihothers => exact splitsInto_choose pos ihfirst ihothers
  | @select pos _ _ _ _ _ _ ihsubject ihothers => exact splitsInto_select pos ihsubject ihothers
  | @loop pos _ _ _ _ _ _ ihcondition ihbody => exact splitsInto_loop pos ihcondition ihbody
  | conditional _ _ ihcondition ihbody => exact splitsInto_conditional ihcondition ihbody
  | endif => exact splitsInto_endif
  | otherwise _ ih => exact splitsInto_otherwise ih
  | elif _ _ ihfirst ihothers => exact splitsInto_elif ihfirst ihothers
  | endswitch => exact splitsInto_endswitch
  | default _ ih => exact splitsInto_default ih
  | case _ _ _ ihguard ihbody ihothers => exact splitsInto_case ihguard ihbody ihothers
  | nil => exact fun _ _ => .done
  | cons _ _ ihfirst ihothers => exact splitsInto_cons ihfirst ihothers

end Reckoner
