import Reckoner.Proofs.Rereading

/-!
# Programs read back from their text

The text of a parsed program is parsed as the same program, in other places. The program has to come
from a source: then its names and operators are lexemes in lower case and its integers have no sign.
Of its binary numbers it is asked that their printed forms are literals.

* `Token.Lexed` — the token stands for a lexeme;
* `Expr.numbers` — the literals of a tree;
* `Reads.printable` — what is read from lexemes can be printed;
* `Program.ofSource_text` — parsing the text of a program.
-/

namespace Reckoner

open Text

/-! ## Trees from a source -/

/-- The token stands for a lexeme. -/
def Token.Lexed (t : Token) : Prop :=
  ∃ cls text, Lexeme cls text t.kind t.literal

theorem Splits.lexed {source rest : List Char} {segments : List Segment}
    (h : Splits source segments rest) (p : Position) :
    ∀ t ∈ Segment.tokensFrom p segments, t.Lexed := by
  induction h generalizing p with
  | done => simp [Segment.tokensFrom]
  | blank _ _ ih => exact ih _
  | lexeme hlex _ _ ih =>
      intro t ht
      rcases List.mem_cons.1 ht with rfl | ht
      · exact ⟨_, _, hlex⟩
      · exact ih _ t ht
  | unclosed _ => simp [Segment.tokensFrom]

mutual

/-- The literals of an expression. -/
def Expr.numbers : Expr → List Number
  | .num value _ => [value]
  | .var _ _ => []
  | .assign _ _ value => value.numbers
  | .binary _ left right => left.numbers ++ right.numbers
  | .unary _ operand => operand.numbers
  | .sequence statements => Expr.numbersAll statements
  | .choose _ arms => arms.numbers
  | .select _ subject arms => subject.numbers ++ arms.numbers
  | .loop _ condition body => condition.numbers ++ Expr.numbersAll body

/-- The literals of statements. -/
def Expr.numbersAll : List Expr → List Number
  | [] => []
  | e :: rest => e.numbers ++ Expr.numbersAll rest

/-- The literals of arms. -/
def Arms.numbers : Arms → List Number
  | .none => []
  | .otherwise body => body.numbers
  | .arm guard body rest => guard.numbers ++ body.numbers ++ rest.numbers

end

theorem Expr.mem_numbersAll {es : List Expr} {n : Number} :
    n ∈ Expr.numbersAll es ↔ ∃ e ∈ es, n ∈ e.numbers := by
  induction es with
  | nil => simp [Expr.numbersAll]
  | cons e es ih => simp [Expr.numbersAll, ih]

/-- The literals of a part of the grammar. -/
def Symbol.numbers : (s : Symbol) → s.Tree → List Number
  | .phrase _, e => Expr.numbers e
  | .conditional, (condition, body) => condition.numbers ++ body.numbers
  | .chooseArms, arms => Arms.numbers arms
  | .selectArms, arms => Arms.numbers arms
  | .statements, es => Expr.numbersAll es

/-- The tree has a printed form; every phrase is printed as an atom. -/
def Printable : (s : Symbol) → s.Tree → Prop
  | .phrase _, e => ∃ segments, Prints (.phrase .atom) e segments
  | .conditional, v => ∃ segments, Prints .conditional v segments
  | .chooseArms, arms => ∃ segments, Prints .chooseArms arms segments
  | .selectArms, arms => ∃ segments, Prints .selectArms arms segments
  | .statements, es => ∃ segments, Prints .statements es segments

/-- A name in a source can be printed as it is. -/
theorem Token.Lexed.lexeme_literal {t : Token} {kind : Kind} (h : t.Lexed) (hkind : t.kind = kind)
    (hstring : kind ≠ .string) : ∃ cls, Lexeme cls t.literal.toList kind t.literal := by
  rcases h with ⟨cls, text, hlex⟩
  rw [hkind] at hlex
  exact ⟨cls, hlex.of_literal hstring⟩

theorem Joins.kind_ne_string {level : Level} {op : Token} (h : Joins level op) :
    op.kind ≠ .string := by
  cases h with
  | logic h => rcases h with h | h <;> simp [(Parser.isKeyword_iff.1 h).1]
  | comparison h | sum h | product h =>
      intro hstring
      simp [hstring] at h
  | power h => simp [h]

/-- A sign in a source is spelled as one. -/
theorem Token.Lexed.sign_operator {op : Token} (h : op.Lexed) (hsign : op.isSign) :
    op.operator ∈ [⟨.plus, "+"⟩, ⟨.minus, "-"⟩] := by
  -- No word and no other class has the kind of a sign.
  have hliteral : ∀ {cls text kind literal}, Lexeme cls text kind literal →
      (kind = .plus → literal = "+") ∧ (kind = .minus → literal = "-") := by
    intro cls text kind literal hlex
    cases hlex with
    | word _ _ _ =>
        have hmem := tableKind_mem literal
        constructor <;> intro hkind <;> simp [hkind] at hmem
    | operator hmem =>
        constructor <;> rintro rfl <;> simp [operatorKinds] at hmem <;> simp [hmem]
    | _ => simp
  rcases h with ⟨cls, text, hlex⟩
  rcases Token.isSign_iff.1 hsign with hkind | hkind
  · simp [Token.operator, hkind, (hliteral hlex).1 hkind]
  · simp [Token.operator, hkind, (hliteral hlex).2 hkind]

/-- A number in a source can be printed, if it is binary under the condition that it reads back. -/
theorem Token.Lexed.prints {t : Token} {n : Number} (h : t.Lexed) (hn : t.Denotes n)
    (hback : n.ReadsBack) : n.Prints := by
  rcases h with ⟨cls, text, hlex⟩
  cases n with
  | int i => exact Number.prints_int (hlex.toInt_nonneg hn)
  | float x => exact Number.prints_float hback

/-- What is read from lexemes can be printed. -/
theorem Reads.printable {limit d : Nat} {s : Symbol} {tree : s.Tree} {ts : List Token}
    (h : Reads limit d s tree ts) (hlexed : ∀ t ∈ ts, t.Lexed)
    (hnumbers : ∀ n ∈ s.numbers tree, n.ReadsBack) : Printable s tree := by
  -- Phrases that only pass a tree on are printed like it; all others are printed from their parts.
  induction h with
  | declare _ _ hname _ _ ih =>
      rcases (hlexed _ (by simp)).lexeme_literal hname (by simp) with ⟨cls, hlex⟩
      rcases ih (fun t ht => hlexed t (by simp [ht])) hnumbers with ⟨es, hes⟩
      exact ⟨_, .assign hlex hes⟩
  | assign _ hname _ _ ih =>
      rcases (hlexed _ (by simp)).lexeme_literal hname (by simp) with ⟨cls, hlex⟩
      rcases ih (fun t ht => hlexed t (by simp [ht])) hnumbers with ⟨es, hes⟩
      exact ⟨_, .assign hlex hes⟩
  | expression _ _ ih | first _ ih | compared _ ih | unsigned _ ih | grouped _ ih =>
      exact ih hlexed hnumbers
  | joined _ hop _ _ ihleft ihright =>
      rcases (hlexed _ (by simp)).lexeme_literal rfl hop.kind_ne_string with ⟨cls, hlex⟩
      simp only [Symbol.numbers, Expr.numbers, List.forall_mem_append] at hnumbers
      rcases ihleft (fun t ht => hlexed t (by simp [ht])) hnumbers.1 with ⟨ls, hls⟩
      rcases ihright (fun t ht => hlexed t (by simp [ht])) hnumbers.2 with ⟨rs, hrs⟩
      exact ⟨_, .joined (fun _ => hop.of_eq rfl rfl) hlex hls hrs⟩
  | raised hop _ _ ihleft ihright =>
      -- A power is printed like any other operator: the parentheses keep its exponent together.
      have hjoins : Joins .power _ := .power hop
      rcases (hlexed _ (by simp)).lexeme_literal rfl hjoins.kind_ne_string with ⟨cls, hlex⟩
      simp only [Symbol.numbers, Expr.numbers, List.forall_mem_append] at hnumbers
      rcases ihleft (fun t ht => hlexed t (by simp [ht])) hnumbers.1 with ⟨ls, hls⟩
      rcases ihright (fun t ht => hlexed t (by simp [ht])) hnumbers.2 with ⟨rs, hrs⟩
      exact ⟨_, .joined (fun _ => hjoins.of_eq rfl rfl) hlex hls hrs⟩
  | @negated _ op _ _ _ hop _ ih =>
      rcases ih (fun t ht => hlexed t (by simp [ht])) hnumbers with ⟨es, hes⟩
      have hoperator : op.operator = ⟨.keyword, "not"⟩ := by
        simp [Token.operator, Parser.isKeyword_iff.1 hop]
      rw [Printable, hoperator]
      exact ⟨_, .negated hes⟩
  | signed _ hop _ ih =>
      rcases ih (fun t ht => hlexed t (by simp [ht])) hnumbers with ⟨es, hes⟩
      exact ⟨_, .signed ((hlexed _ (by simp)).sign_operator hop) hes⟩
  | number _ hn =>
      exact ⟨_, .number ((hlexed _ (by simp)).prints hn (hnumbers _ (by simp [Symbol.numbers,
        Expr.numbers])))⟩
  | named ht =>
      rcases (hlexed _ (by simp)).lexeme_literal ht (by simp) with ⟨cls, hlex⟩
      exact ⟨_, .named hlex⟩
  | choose _ _ _ ihfirst ihothers =>
      simp only [Symbol.numbers, Expr.numbers, Arms.numbers, List.forall_mem_append] at hnumbers
      rcases ihfirst (fun t ht => hlexed t (by simp [ht]))
        (List.forall_mem_append.2 hnumbers.1) with ⟨cs, hcs⟩
      rcases ihothers (fun t ht => hlexed t (by simp [ht])) hnumbers.2 with ⟨rs, hrs⟩
      exact ⟨_, .choose hcs hrs⟩
  | select _ _ _ ihsubject ihothers =>
      simp only [Symbol.numbers, Expr.numbers, List.forall_mem_append] at hnumbers
      rcases ihsubject (fun t ht => hlexed t (by simp [ht])) hnumbers.1 with ⟨es, hes⟩
      rcases ihothers (fun t ht => hlexed t (by simp [ht])) hnumbers.2 with ⟨rs, hrs⟩
      exact ⟨_, .select hes hrs⟩
  | loop _ _ _ _ _ ihcondition ihbody =>
      simp only [Symbol.numbers, Expr.numbers, List.forall_mem_append] at hnumbers
      rcases ihcondition (fun t ht => hlexed t (by simp [ht])) hnumbers.1 with ⟨cs, hcs⟩
      rcases ihbody (fun t ht => hlexed t (by simp [ht])) hnumbers.2 with ⟨bs, hbs⟩
      exact ⟨_, .loop hcs hbs⟩
  | group _ _ _ ih => exact ih (fun t ht => hlexed t (by simp [ht])) hnumbers
  | conditional _ _ _ ihcondition ihbody =>
      simp only [Symbol.numbers, List.forall_mem_append] at hnumbers
      rcases ihcondition (fun t ht => hlexed t (by simp [ht])) hnumbers.1 with ⟨cs, hcs⟩
      rcases ihbody (fun t ht => hlexed t (by simp [ht])) hnumbers.2 with ⟨bs, hbs⟩
      exact ⟨_, .conditional hcs hbs⟩
  | endif _ => exact ⟨_, .endif⟩
  | otherwise _ _ _ ih =>
      rcases ih (fun t ht => hlexed t (by simp [ht])) hnumbers with ⟨es, hes⟩
      exact ⟨_, .otherwise hes⟩
  | elif _ _ _ ihfirst ihothers =>
      simp only [Symbol.numbers, Arms.numbers, List.forall_mem_append] at hnumbers
      rcases ihfirst (fun t ht => hlexed t (by simp [ht]))
        (List.forall_mem_append.2 hnumbers.1) with ⟨cs, hcs⟩
      rcases ihothers (fun t ht => hlexed t (by simp [ht])) hnumbers.2 with ⟨rs, hrs⟩
      exact ⟨_, .elif hcs hrs⟩
  | endswitch _ => exact ⟨_, .endswitch⟩
  | default _ _ _ _ ih =>
      rcases ih (fun t ht => hlexed t (by simp [ht])) hnumbers with ⟨es, hes⟩
      exact ⟨_, .default hes⟩
  | case _ _ _ _ _ ihguard ihbody ihothers =>
      simp only [Symbol.numbers, Arms.numbers, List.forall_mem_append] at hnumbers
      rcases ihguard (fun t ht => hlexed t (by simp [ht])) hnumbers.1.1 with ⟨gs, hgs⟩
      rcases ihbody (fun t ht => hlexed t (by simp [ht])) hnumbers.1.2 with ⟨bs, hbs⟩
      rcases ihothers (fun t ht => hlexed t (by simp [ht])) hnumbers.2 with ⟨rs, hrs⟩
      exact ⟨_, .case hgs hbs hrs⟩
  | nil => exact ⟨_, .nil⟩
  | cons _ _ _ ihfirst ihothers =>
      simp only [Symbol.numbers, Expr.numbersAll, List.forall_mem_append] at hnumbers
      rcases ihfirst (fun t ht => hlexed t (by simp [ht])) hnumbers.1 with ⟨es, hes⟩
      rcases ihothers (fun t ht => hlexed t (by simp [ht])) hnumbers.2 with ⟨rs, hrs⟩
      exact ⟨_, .cons hes hrs⟩

/-! ## Whole programs -/

theorem Program.text_nil : Program.text [] = "" := by
  simp [Program.text, Expr.texts]

theorem Program.text_singleton (e : Expr) : Program.text [e] = e.text := by
  simp [Program.text, Expr.texts]

theorem Program.text_cons_cons (e e' : Expr) (rest : List Expr) :
    Program.text (e :: e' :: rest) = e.text ++ "\n" ++ Program.text (e' :: rest) := by
  simp [Program.text, Expr.texts, String.intercalate_cons_cons]

/-- The pieces of the text of a program: its statements with newlines between them. -/
theorem Prints.exists_program {es : List Expr} {segments : List Segment}
    (h : Prints .statements es segments) :
    ∃ pieces, Splits (Program.text es).toList pieces [] ∧
      ∀ ts, Spells pieces ts ↔ Spells segments ts := by
  induction es generalizing segments with
  | nil =>
      cases h
      rw [Program.text_nil]
      exact ⟨[], .done, fun _ => Iff.rfl⟩
  | cons e es ih =>
      cases h with
      | @cons _ _ first rest hfirst hrest =>
          rcases ih hrest with ⟨pieces, hpieces, hspells⟩
          cases es with
          | nil =>
              cases hrest
              rw [Program.text_singleton]
              refine ⟨first, ?_, fun _ => by simp⟩
              simpa [Symbol.text] using hfirst.splits [] delimits_nil
          | cons e' es =>
              -- In a body a blank divides the statements, in a program a newline: the lexemes are
              -- the same.
              refine ⟨first ++ .blank '\n' :: pieces, ?_, ?_⟩
              · have htext : (Program.text (e :: e' :: es)).toList =
                    e.text.toList ++ '\n' :: (Program.text (e' :: es)).toList := by
                  simp [Program.text_cons_cons]
                rw [htext]
                exact (hfirst.splits _ (by simp)).append (.blank (by decide) hpieces)
              · intro ts
                have hnewline : ∀ us, Spells (.blank '\n' :: pieces) us ↔ Spells pieces us :=
                  fun _ => Iff.rfl
                simp [spells_append, hnewline, hspells]

/-- The text of a parsed program is parsed as the program again, up to places, when its binary
numbers are printed as literals. -/
theorem Program.ofSource_text {source : List Char} {program : Program}
    (h : Program.ofSource 0 source = .ok program)
    (hnumbers : ∀ e ∈ program, ∀ n ∈ e.numbers, n.ReadsBack) :
    ∃ program', Program.ofSource 0 program.text.toList = .ok program' ∧
      program'.map Expr.unplaced = program.map Expr.unplaced := by
  rcases Program.ofSource_eq_ok_iff.1 h with ⟨segments, hsplits, hreads⟩
  have hall : ∀ n ∈ Symbol.numbers .statements program, n.ReadsBack := by
    intro n hn
    rcases Expr.mem_numbersAll.1 hn with ⟨e, he, hne⟩
    exact hnumbers e he n hne
  rcases hreads.printable (hsplits.lexed _) hall with ⟨printed, hprinted⟩
  -- The printed program is scanned into its pieces, and their tokens read as the program.
  rcases hprinted.exists_program with ⟨pieces, hpieces, hspells⟩
  have htokens := (hspells _).1 (spells_tokensFrom .start pieces)
  rcases hprinted.reads _ htokens with ⟨program', hback, hsame, -⟩
  exact ⟨program', Program.ofSource_eq_ok_iff.2 ⟨pieces, hpieces, hback⟩, hsame⟩

/-- A capital letter and a binary number: `X^2.5` is printed as `(x ^ 2.5)`. -/
theorem Program.ofSource_text_capital :
    let source := ['X', '^', '2', '.', '5']
    let program : Program :=
      [.binary ⟨.pow, "^"⟩ (.var "x" ⟨1, 1⟩) (.num (.float 2.5) ⟨1, 5⟩)]
    Program.ofSource 0 source = .ok program ∧
      (∀ e ∈ program, ∀ n ∈ e.numbers, n.ReadsBack) ∧
      ∃ program', Program.ofSource 0 program.text.toList = .ok program' ∧
        program'.map Expr.unplaced = program.map Expr.unplaced := by
  intro source program
  have hchars : (readFloatChars ['2', '.', '5']).toOption = some 2.5 := by decide +kernel
  have hread : readFloat "2.5" = .ok 2.5 := by
    rw [readFloat, show "2.5".toList = ['2', '.', '5'] from rfl]
    cases h : readFloatChars ['2', '.', '5'] with
    | error misfit => simp [h, Except.toOption] at hchars
    | ok x =>
        rw [h] at hchars
        rw [Option.some.inj hchars]
  have hprinted : floatText 2.5 = "2.5" := by decide +kernel
  have hback : (Number.float 2.5).ReadsBack := by
    refine ⟨⟨['2'], ['5'], by simp, by simp, List.forall_mem_singleton.2 (by decide),
      List.forall_mem_singleton.2 (by decide), ?_⟩, ?_⟩
    · rw [hprinted]
      rfl
    · rw [hprinted]
      exact hread
  have hname : Lexeme .word ['X'] .identifier "x" :=
    @Lexeme.word 'X' [] "x" (by decide) (by simp) (by decide)
  have hsplits : Splits source [.lexeme ['X'] .identifier "x", .lexeme ['^'] .pow "^",
      .lexeme ['2', '.', '5'] .float "2.5"] [] := by
    have hnumber : Lexeme .number (['2'] ++ '.' :: ['5']) .float "2.5" :=
      .fraction (by simp) (List.forall_mem_singleton.2 (by decide))
        (List.forall_mem_singleton.2 (by decide))
    have hpower := lexeme_symbol (c := '^') rfl ['2', '.', '5']
    have hlong : Longest .word ['X'] ['^', '2', '.', '5'] :=
      (longest_word_iff (by decide) (by simp)).2 (headFails_cons.2 (by decide))
    refine .lexeme hname hlong (.lexeme hpower.1 hpower.2 ?_)
    exact .lexeme hnumber (hnumber.longest_of_delimits delimits_nil) .done
  have hreads : Reads 0 0 .statements program
      [⟨.identifier, "x", ⟨1, 1⟩⟩, ⟨.pow, "^", ⟨1, 2⟩⟩, ⟨.float, "2.5", ⟨1, 5⟩⟩] := by
    have hbase : Reads 0 0 (.phrase .atom) (.var "x" ⟨1, 1⟩) [⟨.identifier, "x", ⟨1, 1⟩⟩] :=
      @Reads.named 0 0 ⟨.identifier, "x", ⟨1, 1⟩⟩ rfl
    have hexponent : Reads 0 0 (.phrase .atom) (.num (.float 2.5) ⟨1, 5⟩)
        [⟨.float, "2.5", ⟨1, 5⟩⟩] :=
      @Reads.number 0 0 ⟨.float, "2.5", ⟨1, 5⟩⟩ _ (.inr rfl) (.float rfl hread)
    have hpow : Joins .power ⟨.pow, "^", ⟨1, 2⟩⟩ := .power rfl
    exact .cons (by simp) (Reads.statement_of_joined hpow hbase hexponent) .nil
  have hsource : Program.ofSource 0 source = .ok program :=
    Program.ofSource_eq_ok_iff.2 ⟨_, hsplits, hreads⟩
  have hnumbers : ∀ e ∈ program, ∀ n ∈ e.numbers, n.ReadsBack := by
    simpa [program, Expr.numbers] using hback
  exact ⟨hsource, hnumbers, Program.ofSource_text hsource hnumbers⟩

end Reckoner
