import Reckoner.Proofs.Globals.Conversion
import Reckoner.Proofs.Noninterference
import Reckoner.Proofs.Sessions

/-!
# Globals in programs

The names that a configuration may give to globals are words of the language, so the source that
consists of one is scanned as a single token. Where the word is no keyword, the source is a program,
and a session that was started with the globals answers it with the number. A keyword passes the
checks of a configuration as well, but no program can say such a name.

* `Token.scan_of_validName` — a name as a source;
* `Derives.operand_of_singleton` — one token is a statement when it is a name or a numeral;
* `Session.run_of_bound`, `Session.run_of_keyword` — runs of a name;
* `Session.get?_start` — what a session is started with;
* `Config.global_readable_iff` — the globals that programs can read.
-/

namespace Reckoner

open Text

/-! ## Names as sources -/

theorem wordKind_eq_identifier_iff {word : String} :
    wordKind word = .identifier ↔ word ∉ keywords := by
  unfold wordKind
  by_cases hdiv : word = "div"
  · subst hdiv
    decide
  · by_cases hmod : word = "mod"
    · subst hmod
      decide
    · by_cases hword : word ∈ keywords <;> simp [hdiv, hmod, hword]

theorem wordKind_not_numeral (word : String) : wordKind word ≠ .int ∧ wordKind word ≠ .float := by
  have hmem := tableKind_eq word ▸ tableKind_mem word
  constructor <;> intro heq <;> rw [heq] at hmem <;> exact absurd hmem (by decide)

/-- A valid name is a word. -/
theorem Config.lexeme_of_validName {name : String} (h : Config.validName name) :
    Lexeme .word name.toList (wordKind (lowerCase name)) (lowerCase name) := by
  have hword : lowerCase name = String.ofList (name.toList.map lowerChar) :=
    String.map_eq_internal
  unfold Config.validName at h
  cases hname : name.toList with
  | nil =>
      rw [hname] at h
      cases h
  | cons c cs =>
      rw [hname] at h hword
      simp only [Bool.and_eq_true, Bool.or_eq_true, List.all_eq_true] at h
      -- A letter of ASCII is a letter, and a digit of ASCII is a decimal digit.
      refine .ofWord ?_ (fun d hd => ?_) hword
      · rcases h.1 with hletter | hunder
        · simp [isWordStart, isLetter, hletter]
        · simp [isWordStart, hunder]
      · rcases h.2 d hd with (hletter | hdigit) | hunder
        · simp [isWordPart, isLetter, hletter]
        · simp [isWordPart, isDecimal, hdigit]
        · simp [isWordPart, hunder]

/-- The source that consists of a valid name is one piece. -/
theorem Config.splits_of_validName {name : String} (h : Config.validName name) :
    Splits name.toList
      [.lexeme name.toList (wordKind (lowerCase name)) (lowerCase name)] [] := by
  have hlex := Config.lexeme_of_validName h
  have hsplits := Splits.lexeme hlex (hlex.longest_of_delimits delimits_nil) .done
  rwa [List.append_nil] at hsplits

theorem Token.scan_of_validName {name : String} (h : Config.validName name) :
    Token.scan name.toList =
      .ok [⟨wordKind (lowerCase name), lowerCase name, Position.start.past name.toList.dropLast⟩,
        ⟨.eof, "", Position.start.past name.toList⟩] :=
  Token.scan_of_splits (Config.splits_of_validName h)

/-! ## Statements of one token -/

theorem Derives.ne_nil {value : Token → Number → Prop} {s : Symbol} {tree : s.Tree}
    {ts : List Token} (h : Derives value s tree ts) : s ≠ .statements → ts ≠ [] := by
  induction h with
  | expression _ ih => exact fun _ => ih (by simp)
  | first _ ih => exact fun _ => ih (by simp)
  | compared _ ih => exact fun _ => ih (by simp)
  | unsigned _ ih => exact fun _ => ih (by simp)
  | grouped _ ih => exact fun _ => ih (by simp)
  | nil => exact fun hs => absurd rfl hs
  | cons _ _ _ _ => exact fun hs => absurd rfl hs
  | _ => simp

/-- One token alone is a phrase only when it is a name or a numeral. -/
theorem Derives.operand_of_singleton {value : Token → Number → Prop} {s : Symbol} {tree : s.Tree}
    {t : Token} (h : Derives value s tree [t]) (hs : ∃ p, s = .phrase p) :
    t.kind = .identifier ∨ t.IsNumeral := by
  generalize hts : [t] = ts at h
  -- Whatever has an operator, a keyword or a bracket has another token beside it.
  induction h with
  | expression _ ih => exact ih ⟨_, rfl⟩ hts
  | first _ ih => exact ih ⟨_, rfl⟩ hts
  | compared _ ih => exact ih ⟨_, rfl⟩ hts
  | unsigned _ ih => exact ih ⟨_, rfl⟩ hts
  | grouped _ ih => exact ih ⟨_, rfl⟩ hts
  | number ht _ => cases hts; exact .inr ht
  | named ht => cases hts; exact .inl ht
  | joined _ hleft _ _ _ =>
      rcases List.append_eq_singleton_iff.1 hts.symm with ⟨hnil, -⟩ | ⟨-, hcons⟩
      · exact absurd hnil (hleft.ne_nil (by simp))
      · cases hcons
  | negated _ hoperand _ => cases hts; exact absurd rfl (hoperand.ne_nil (by simp))
  | signed _ hoperand _ => cases hts; exact absurd rfl (hoperand.ne_nil (by simp))
  | choose _ hfirst _ _ _ =>
      have hnil := (List.append_eq_nil_iff.1 (List.cons.inj hts).2.symm).1
      exact absurd hnil (hfirst.ne_nil (by simp))
  | select _ hsubject _ _ _ =>
      have hnil := (List.append_eq_nil_iff.1 (List.cons.inj hts).2.symm).1
      exact absurd hnil (hsubject.ne_nil (by simp))
  | declare _ _ _ _ _ => cases hts
  | assign _ _ _ _ => cases hts
  | loop _ _ _ _ _ _ _ => simp at hts
  | group _ _ _ _ => simp at hts
  | _ => exact absurd hs (by simp)

/-! ## Runs of a name -/

/-- A keyword alone is no program. -/
theorem Program.ofSource_keyword {name : String} (h : Config.validName name)
    (hkeyword : lowerCase name ∈ keywords) (limit : Nat) (program : Program) :
    Program.ofSource limit name.toList ≠ .ok program := by
  intro hparse
  rcases Program.ofSource_eq_ok_iff.1 hparse with ⟨segments, hsplits, hreads⟩
  rw [hsplits.unique (Config.splits_of_validName h)] at hreads
  change Reads limit 0 .statements program [⟨wordKind (lowerCase name), lowerCase name,
    Position.start.past name.toList.dropLast⟩] at hreads
  generalize hts : [_] = ts at hreads
  cases hreads with
  | nil => cases hts
  | cons _ hfirst _ =>
      have hderives := hfirst.derives fun _ _ hn => hn
      -- The statement is the whole source, since it has a token of its own.
      rcases List.append_eq_singleton_iff.1 hts.symm with ⟨hnil, -⟩ | ⟨hone, -⟩
      · exact absurd hnil (hderives.ne_nil (by simp))
      · rw [hone] at hderives
        rcases hderives.operand_of_singleton ⟨_, rfl⟩ with hname | hint | hfloat
        · exact wordKind_eq_identifier_iff.1 hname hkeyword
        · exact (wordKind_not_numeral _).1 hint
        · exact (wordKind_not_numeral _).2 hfloat

/-- A word that is no keyword is a program: it reads the variable. -/
theorem Program.ofSource_name {name : String} (h : Config.validName name)
    (hword : lowerCase name ∉ keywords) (limit : Nat) :
    Program.ofSource limit name.toList =
      .ok [.var (lowerCase name) (Position.start.past name.toList.dropLast)] := by
  have hfits : Fits limit 0 := limit.eq_zero_or_pos
  have hatom : Reads limit 1 (.phrase .atom)
      (.var (lowerCase name) (Position.start.past name.toList.dropLast))
      [⟨wordKind (lowerCase name), lowerCase name, Position.start.past name.toList.dropLast⟩] :=
    @Reads.named limit 1 ⟨wordKind (lowerCase name), lowerCase name, _⟩
      (wordKind_eq_identifier_iff.2 hword)
  have hstatement : Reads limit 0 (.phrase .statement) _ _ :=
    .expression hfits (.first (.compared (.first (.first (.first (.unsigned (.first hatom)))))))
  exact Program.ofSource_eq_ok_iff.2
    ⟨_, Config.splits_of_validName h, .cons (by simp) hstatement .nil⟩

namespace Session

theorem run_of_keyword {name : String} (h : Config.validName name)
    (hkeyword : lowerCase name ∈ keywords) (limits : Limits) (ctx : Context) (s : Session)
    (vs : List Value) : (s.run limits ctx name.toList).1.outcome ≠ .ok vs := by
  rw [run]
  cases hparse : Program.ofSource limits.depth name.toList with
  | ok program => exact absurd hparse (Program.ofSource_keyword h hkeyword _ _)
  | error fault => simp

/-- A bound name is answered with what it is bound to. -/
theorem run_of_bound {name : String} (h : Config.validName name)
    (hword : lowerCase name ∉ keywords) (limits : Limits) (ctx : Context) {s : Session}
    {q : Quantity} (hbound : s.env.get? (lowerCase name) = some q) :
    (s.run limits ctx name.toList).1.outcome = .ok [.number q] := by
  rw [run_of_ofSource (Program.ofSource_name h hword _)]
  have hrun : Expr.evalAll (ctx.budget limits)
      [.var (lowerCase name) (Position.start.past name.toList.dropLast)] (s.begun limits ctx) =
        (.ok [.number q], s.begun limits ctx) := by
    have hget : (s.begun limits ctx).env.get? (lowerCase name) = some q := hbound
    rw [Expr.evalAll, Eval.bind_of_ok (Expr.eval_var_of_get? hget _ _)]
    rfl
  rw [(exec_eq limits ctx _ s).1, hrun]

/-- A session is started with the last of what each name is given. -/
theorem get?_start (globals : Bindings Number) (name : String) :
    (start globals).env.get? name =
      ((Bindings.get? globals.reverse name).map (⟨·, .nowhere⟩)).or
        (Environment.global.get? name) := by
  unfold start
  dsimp only
  generalize Environment.global = env
  induction globals generalizing env with
  | nil => rfl
  | cons entry rest ih =>
      rw [List.foldl_cons, ih, Environment.get?_set, List.reverse_cons, Bindings.get?_append]
      cases Bindings.get? rest.reverse name with
      | some n => rfl
      | none =>
          simp only [Bindings.get?, Option.none_or]
          split <;> rfl

end Session

/-! ## Reading a global -/

namespace Config

/-- A global of a configuration that was checked, whatever numbers its values stand for: its name is
scanned as one token, which is the word in lower case, and is a name of the language exactly when
the word is no keyword. If no other global has the name in lower case, the word stands for the
number of this one, and in a session that was started with the numbers, in whatever order, the name
is answered with it exactly when the word is no keyword. A keyword is never answered. -/
theorem global_readable_iff {float? : Global → Option Float} {cfg : Config}
    (hvalid : cfg.validate float? = .ok ()) {name : String} {value : Global}
    (hglobal : (name, value) ∈ cfg.globals) :
    Token.scan name.toList =
        .ok [⟨wordKind (lowerCase name), lowerCase name,
            Position.start.past name.toList.dropLast⟩,
          ⟨.eof, "", Position.start.past name.toList⟩] ∧
      (wordKind (lowerCase name) = .identifier ↔ lowerCase name ∉ keywords) ∧
      ((∀ other ∈ cfg.globals, lowerCase other.1 = lowerCase name → other = (name, value)) →
        ∃ n, value.number? float? = some n ∧
          (cfg.globalNumbers float?).get? (lowerCase name) = some n ∧
          ∀ globals : Bindings Number, globals.Perm (cfg.globalNumbers float?) →
            ∀ (limits : Limits) (ctx : Context),
              ((((Session.start globals).run limits ctx name.toList).1.outcome =
                  .ok [.number ⟨n, .nowhere⟩] ↔ lowerCase name ∉ keywords) ∧
                (lowerCase name ∈ keywords → ∀ vs,
                  ((Session.start globals).run limits ctx name.toList).1.outcome ≠ .ok vs))) := by
  have ⟨hname, n, hn⟩ := globals_of_validate hvalid hglobal
  refine ⟨Token.scan_of_validName hname, wordKind_eq_identifier_iff, fun honly => ?_⟩
  -- The entries under the word all come from this global.
  have hlowered : (lowerCase name, n) ∈ lowered float? cfg.globals :=
    mem_lowered.2 ⟨_, hglobal, rfl, hn⟩
  have hagree : ∀ entry ∈ lowered float? cfg.globals, entry.1 = lowerCase name → entry.2 = n := by
    rintro ⟨word, m⟩ hentry rfl
    rcases mem_lowered.1 hentry with ⟨other, hother, hword, hm⟩
    rw [honly other hother hword, hn] at hm
    exact (Option.some.inj hm).symm
  have hget : (cfg.globalNumbers float?).get? (lowerCase name) = some n := by
    rw [globalNumbers_eq]
    exact Bindings.get?_setAll_of_mem hlowered hagree []
  refine ⟨n, hn, hget, fun globals hperm limits ctx => ⟨⟨?_, ?_⟩, ?_⟩⟩
  · intro hanswer hkeyword
    exact Session.run_of_keyword hname hkeyword limits ctx _ _ hanswer
  · intro hword
    refine Session.run_of_bound hname hword limits ctx ?_
    have hnodup : (cfg.globalNumbers float?).names.Nodup := by
      rw [globalNumbers_eq]
      exact Bindings.nodup_names_setAll (by simp [Bindings.names]) _
    rw [Session.get?_start,
      Bindings.get?_of_perm ((List.reverse_perm globals).trans hperm) hnodup, hget]
    rfl
  · exact fun hkeyword vs => Session.run_of_keyword hname hkeyword limits ctx _ vs

/-- A global with a capital in its name. -/
theorem global_readable_width :
    let cfg : Config := { globals := [("Width", .number 3)] }
    cfg.validate Global.float? = .ok () ∧ ("Width", .number 3) ∈ cfg.globals ∧
      lowerCase "Width" = "width" ∧ wordKind "width" = .identifier ∧
      ∀ (limits : Limits) (ctx : Context),
        ((Session.start (cfg.globalNumbers Global.float?)).run limits ctx
            "Width".toList).1.outcome = .ok [.number ⟨.int 3, .nowhere⟩] := by
  intro cfg
  have hvalid : cfg.validate Global.float? = .ok () := validate_of_isOk (by decide +kernel)
  have hglobal : ("Width", .number 3) ∈ cfg.globals := List.mem_singleton.2 rfl
  have hlower : lowerCase "Width" = "width" := by decide +kernel
  have hword : "width" ∉ keywords := by decide
  have hthree : Global.number? Global.float? (.number 3) = some (.int 3) := by
    rw [Global.number?, Global.float?, Option.map_some, globalNumber, if_pos (by decide +kernel)]
    exact congrArg (some ∘ Number.int) (by decide +kernel)
  rcases global_readable_iff hvalid hglobal with ⟨-, hkind, hanswer⟩
  rw [hlower] at hkind hanswer
  rcases hanswer fun other hother _ => List.mem_singleton.1 hother with ⟨n, hn, -, hrun⟩
  cases Option.some.inj (hn.symm.trans hthree)
  exact ⟨hvalid, hglobal, hlower, hkind.2 hword,
    fun limits ctx => (hrun _ (List.Perm.refl _) limits ctx).1.2 hword⟩

/-- A global whose name is a keyword passes the checks, and no run answers it. -/
theorem global_unreadable :
    let cfg : Config := { globals := [("if", .number 3)] }
    cfg.validate Global.float? = .ok () ∧
      (∃ first last, Token.scan "if".toList = .ok [first, last] ∧ first.kind ≠ .identifier) ∧
      ∀ (limits : Limits) (ctx : Context) (vs : List Value),
        ((Session.start (cfg.globalNumbers Global.float?)).run limits ctx "if".toList).1.outcome ≠
          .ok vs := by
  intro cfg
  have hvalid : cfg.validate Global.float? = .ok () := validate_of_isOk (by decide +kernel)
  have hname : validName "if" := by decide
  have hkeyword : lowerCase "if" ∈ keywords := by
    rw [show lowerCase "if" = "if" by decide +kernel]
    decide
  refine ⟨hvalid, ⟨_, _, Token.scan_of_validName hname, ?_⟩, fun limits ctx vs => ?_⟩
  · exact fun hkind => wordKind_eq_identifier_iff.1 hkind hkeyword
  · exact Session.run_of_keyword hname hkeyword limits ctx _ vs

end Config
end Reckoner
