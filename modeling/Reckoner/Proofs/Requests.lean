import Mathlib.Data.List.Forall2
import Reckoner.Proofs.Parser.Following
import Reckoner.Proofs.Sessions
import Reckoner.Service.Handler

/-!
# Requests one after another

What a request finds of the programs that earlier ones left behind makes no difference to its
answer. Whatever is kept under a source is the program that the source writes, so the answer is the
one that a service of its own would give, but for the note that a program was kept. This is so for
any framework that the service may stand on.

* `Faithful` — programs kept under the sources that write them;
* `Answer.Matches` — the same status and the same body, but for the name of the request and that
  note;
* `handle_of_faithful` — one request with such programs, and what it leaves behind;
* `Reports` — an answer that tells how a run ended, with what it says of each class of faults;
* `Serves` — requests one after another, with any cache;
* `Serves.answers_alone` — each is answered as if it were alone.
-/

namespace Reckoner

/-- A value without its fields of these names. -/
def Json.without (names : List String) : Json → Json
  | .object fields => .object (fields.filter fun field => !names.contains field.1)
  | j => j

namespace Service

open Text (allBlank)

variable {settings : Settings} {limits : Limits} {cache : Cache}

/-! ## Programs that are kept -/

/-- Whatever is kept under a source is the program that the source writes. -/
def Faithful (limits : Limits) (kept : String → Option Program) : Prop :=
  ∀ source program, kept source = some program →
    Program.ofSource limits.depth source.toList = .ok program

theorem faithful_none (limits : Limits) : Faithful limits fun _ => none := by
  intro source program hkept
  cases hkept

/-- With such a cache a source is parsed as without one, and it stays such a cache. -/
theorem parse_of_faithful (settings : Settings) (h : Faithful limits cache.get?)
    (source : String) :
    ∃ cached after, Faithful limits (Bindings.get? after) ∧
      parse settings limits cache source =
        ((Program.ofSource limits.depth source.toList).map (·, cached), after) := by
  unfold parse
  cases hkept : cache.get? source with
  | some program =>
      refine ⟨true, cache, h, ?_⟩
      rw [h source program hkept]
      rfl
  | none =>
      cases hparse : Program.ofSource limits.depth source.toList with
      | error fault => exact ⟨false, cache, h, rfl⟩
      | ok program =>
          refine ⟨false, _, ?_, rfl⟩
          split
          · -- The only new program is the one that was just parsed.
            intro other found hfound
            rw [Bindings.get?_set] at hfound
            split at hfound
            · cases hfound
              subst other
              exact hparse
            · exact h other found hfound
          · exact h

/-! ## Answers that match -/

namespace Answer

/-- The same status, and the same body but for the name of the request and the note whether the
program was kept. -/
def Matches (a b : Answer) : Prop :=
  a.status = b.status ∧
    ∀ name name', (a.body name).without ["requestId", "cached"] =
      (b.body name').without ["requestId", "cached"]

theorem results_matches (cached cached' : Bool) (values : List String)
    (bindings : List (String × String)) :
    (results cached values bindings).Matches (results cached' values bindings) := by
  refine ⟨rfl, fun name name' => ?_⟩
  simp [body, Json.without]

theorem Matches.refl (a : Answer) : a.Matches a := by
  cases a with
  | results cached values bindings => exact results_matches cached cached values bindings
  | _ => exact ⟨rfl, fun _ _ => rfl⟩

theorem failed_matches (cached cached' : Bool) (fault : Fault) :
    (failed cached fault).Matches (failed cached' fault) :=
  ⟨rfl, fun _ _ => rfl⟩

end Answer

theorem rel_matches_self (answer : Option Answer) : Option.Rel Answer.Matches answer answer := by
  cases answer with
  | none => exact .none
  | some a => exact .some (.refl a)

theorem execute_matches (settings : Settings) (limits : Limits) (ctx : Context)
    (program : Program) (cached cached' : Bool) :
    Option.Rel Answer.Matches (execute settings limits ctx program cached)
      (execute settings limits ctx program cached') := by
  unfold execute
  rcases (Session.start settings.globals).exec limits (context settings ctx) program with
    ⟨⟨outcome, log⟩, session⟩
  cases outcome with
  | ok values => exact .some (Answer.results_matches cached cached' _ _)
  | error halt =>
      cases halt with
      | fault fault => exact .some (Answer.failed_matches cached cached' fault)
      | unfinished pos => exact .none

/-! ## One request -/

/-- The answer to a request that is the only one of a service that keeps nothing. -/
def alone (framework : Framework) (settings : Settings) (limits : Limits) (ctx : Context)
    (r : Request) : Option Answer :=
  (handle framework { settings with cacheSize := 0 } limits ctx [] r).1

theorem parse_alone (settings : Settings) (limits : Limits) (source : String) :
    parse { settings with cacheSize := 0 } limits [] source =
      ((Program.ofSource limits.depth source.toList).map (·, false), []) := by
  unfold parse Bindings.get?
  cases Program.ofSource limits.depth source.toList <;> rfl

theorem evaluate_of_faithful (settings : Settings) (ctx : Context)
    (h : Faithful limits cache.get?) (source : String) :
    Option.Rel Answer.Matches (evaluate settings limits ctx cache source).1
        (evaluate { settings with cacheSize := 0 } limits ctx [] source).1 ∧
      Faithful limits (evaluate settings limits ctx cache source).2.get? := by
  rcases parse_of_faithful settings h source with ⟨cached, after, hafter, hparse⟩
  unfold evaluate
  rw [hparse, parse_alone]
  split
  · exact ⟨rel_matches_self _, h⟩
  cases Program.ofSource limits.depth source.toList with
  | error fault => exact ⟨rel_matches_self _, hafter⟩
  | ok program => exact ⟨execute_matches settings limits ctx program cached false, hafter⟩

theorem describe_of_faithful (settings : Settings) (h : Faithful limits cache.get?)
    (source : String) :
    (describe settings limits cache source).1 =
        (describe { settings with cacheSize := 0 } limits [] source).1 ∧
      Faithful limits (describe settings limits cache source).2.get? := by
  rcases parse_of_faithful settings h source with ⟨cached, after, hafter, hparse⟩
  unfold describe
  rw [hparse, parse_alone]
  cases Program.ofSource limits.depth source.toList with
  | error fault => exact ⟨rfl, hafter⟩
  | ok program => exact ⟨rfl, hafter⟩

theorem withSource_of_faithful {framework : Framework} {r : Request}
    {answer answer' : String → Option Answer × Cache} (h : Faithful limits cache.get?)
    (hanswer : ∀ source, Option.Rel Answer.Matches (answer source).1 (answer' source).1 ∧
      Faithful limits (answer source).2.get?) :
    Option.Rel Answer.Matches (withSource framework r cache answer).1
        (withSource framework r [] answer').1 ∧
      Faithful limits (withSource framework r cache answer).2.get? := by
  unfold withSource
  cases framework.source? r with
  | none => exact ⟨rel_matches_self _, h⟩
  | some source => exact hanswer source

/-- With a faithful cache a request is answered as if it were alone, and the cache stays faithful.
-/
theorem handle_of_faithful (framework : Framework) (settings : Settings) (ctx : Context)
    (h : Faithful limits cache.get?) (r : Request) :
    Option.Rel Answer.Matches (handle framework settings limits ctx cache r).1
        (alone framework settings limits ctx r) ∧
      Faithful limits (handle framework settings limits ctx cache r).2.get? := by
  unfold alone handle
  cases framework.endpoint? r.path with
  | none => exact ⟨rel_matches_self _, h⟩
  | some endpoint =>
      dsimp only
      by_cases hmethod : framework.servedBy r.method endpoint.method = true
      · rw [if_pos hmethod, if_pos hmethod]
        unfold respond
        cases endpoint with
        | health => exact ⟨rel_matches_self _, h⟩
        | eval => exact withSource_of_faithful h (evaluate_of_faithful settings ctx h)
        | tokens => exact withSource_of_faithful h fun source => ⟨rel_matches_self _, h⟩
        | parse =>
            refine withSource_of_faithful h fun source => ?_
            rcases describe_of_faithful settings h source with ⟨hsame, hafter⟩
            refine ⟨?_, hafter⟩
            dsimp only
            rw [hsame]
            exact rel_matches_self _
      · rw [if_neg hmethod, if_neg hmethod]
        exact ⟨rel_matches_self _, h⟩

/-! ## Evaluations -/

/-- The request asks for the evaluation of a source that is not blank. -/
def Request.Evaluates (framework : Framework) (r : Request) (source : String) : Prop :=
  framework.endpoint? r.path = some .eval ∧ framework.servedBy r.method "POST" ∧
    framework.source? r = some source ∧ allBlank source = false

/-- A list as a field that is left out when the list is empty. -/
def listed (items : List Json) : Option Json :=
  if items.isEmpty then none else some (.array items)

/-- A number as a field that is left out when it is zero. -/
def counted (n : Int) : Option Json :=
  if n = 0 then none else some (.number (Decimal.intText n))

/-- The classes of faults, each with its name and the status of answers that tell of it. -/
def codeTable : List (Code × String × Nat) :=
  [(.lexical, "LEX_ERROR", 400), (.grammar, "SYNTAX_ERROR", 400), (.exit, "EXIT", 400),
    (.runtime, "RUNTIME_ERROR", 422), (.limit, "LIMIT_EXCEEDED", 422), (.timeout, "TIMEOUT", 408),
    (.canceled, "CANCELED", 503)]

/-- An answer without results tells of a fault: the status and the name are those of its class, and
with the name stand the message and the place, of which numbers that are zero are left out. -/
def Tells (answer : Answer) (fault : Fault) : Prop :=
  ∃ code, (fault.code, code, answer.status) ∈ codeTable ∧ ∀ name, ∃ error,
    (answer.body name).field? "results" = some (.array []) ∧
      (answer.body name).field? "environment" = none ∧
      (answer.body name).field? "error" = some error ∧
      error.field? "code" = some (.string code) ∧
      error.field? "message" = some (.string fault.message) ∧
      error.field? "line" = counted fault.pos.line ∧
      error.field? "column" = counted fault.pos.column

/-- The answer tells how a run ended: its results, and the bindings it left, in the order in which
they were made, if they are wanted; or else the fault and no results. A run without an end has no
answer. -/
def Reports (printEnv : Bool) (run : Reply × Session) (answer : Option Answer) : Prop :=
  match run.1.outcome, answer with
  | .ok values, some a =>
    a.status = 200 ∧ ∀ name,
      (a.body name).field? "results" = some (.array (values.map fun v => .string v.text)) ∧
      (a.body name).field? "environment" =
        listed (if printEnv then
          run.2.env.inner.map fun (name, q) =>
            .object [("name", .string name), ("value", .string q.number.text)]
        else []) ∧
      (a.body name).field? "error" = none
  | .error (.fault fault), some a => Tells a fault
  | .error (.unfinished _), none => True
  | _, _ => False

theorem lookup_listField (name field : String) (items : List Json) :
    (listField name items).lookup field = if field = name then listed items else none := by
  unfold listField listed
  by_cases hname : field = name
  · subst hname
    cases items <;> simp
  · cases items <;> simp [hname]

theorem lookup_countField (name field : String) (n : Int) :
    (countField name n).lookup field = if field = name then counted n else none := by
  unfold countField counted
  by_cases hname : field = name
  · subst hname
    by_cases hn : n = 0 <;> simp [hn]
  · by_cases hn : n = 0 <;> simp [hn, hname]

/-- Every class of faults is in the table. -/
theorem mem_codeTable (code : Code) : (code, code.name, statusOf code) ∈ codeTable := by
  cases code <;> decide

theorem failed_tells (cached : Bool) (fault : Fault) : Tells (.failed cached fault) fault := by
  refine ⟨fault.code.name, mem_codeTable fault.code, fun name => ⟨faultJson fault, rfl, rfl, rfl,
    rfl, rfl, ?_, ?_⟩⟩
  · -- The numbers come after the name and the message.
    change List.lookup "line" (countField "line" _ ++ countField "column" _) = _
    rw [List.lookup_append, lookup_countField, lookup_countField, if_pos rfl, if_neg (by decide)]
    exact Option.or_none
  · change List.lookup "column" (countField "line" _ ++ countField "column" _) = _
    rw [List.lookup_append, lookup_countField, lookup_countField, if_neg (by decide), if_pos rfl]
    rfl

theorem execute_reports (settings : Settings) (limits : Limits) (ctx : Context)
    (program : Program) (cached : Bool) :
    Reports settings.printEnv
      ((Session.start settings.globals).exec limits (context settings ctx) program)
      (execute settings limits ctx program cached) := by
  unfold execute
  rcases (Session.start settings.globals).exec limits (context settings ctx) program with
    ⟨⟨outcome, log⟩, session⟩
  cases outcome with
  | ok values =>
      refine ⟨rfl, fun name => ⟨?_, ?_, ?_⟩⟩
      · change some (Json.array ((values.map Value.text).map .string)) = _
        rw [List.map_map]
        rfl
      · -- The bindings come after the name of the request and the results.
        change List.lookup "environment" (listField "environment" _ ++ _) = _
        rw [List.lookup_append, lookup_listField, if_pos rfl]
        refine Option.or_none.trans (congrArg listed ?_)
        cases settings.printEnv
        · rfl
        · exact List.map_map
      · change List.lookup "error" (listField "environment" _ ++ _) = _
        rw [List.lookup_append, lookup_listField, if_neg (by decide)]
        rfl
  | error halt =>
      cases halt with
      | fault fault => exact failed_tells cached fault
      | unfinished pos => trivial

theorem evaluate_reports (settings : Settings) (ctx : Context) (h : Faithful limits cache.get?)
    {source : String} (hblank : allBlank source = false) :
    Reports settings.printEnv
      ((Session.start settings.globals).run limits (context settings ctx) source.toList)
      (evaluate settings limits ctx cache source).1 := by
  rcases parse_of_faithful settings h source with ⟨cached, after, -, hparse⟩
  unfold evaluate
  rw [if_neg (by simp [hblank]), hparse]
  unfold Session.run
  cases Program.ofSource limits.depth source.toList with
  | error fault => exact failed_tells false fault
  | ok program => exact execute_reports settings limits ctx program cached

theorem handle_of_evaluates (settings : Settings) (limits : Limits) (ctx : Context)
    (cache : Cache) {framework : Framework} {r : Request} {source : String}
    (h : r.Evaluates framework source) :
    handle framework settings limits ctx cache r = evaluate settings limits ctx cache source := by
  rcases h with ⟨hpath, hmethod, hsource, -⟩
  unfold handle
  rw [hpath]
  dsimp only
  rw [show Endpoint.eval.method = "POST" from rfl, if_pos hmethod]
  unfold respond withSource
  rw [hsource]

/-! ## Requests in order -/

/-- Requests, each in its context, that are answered one after another, where `kept` is what was
last kept under each source. Each request has a cache of its own: it holds some of these programs
and no others, since any of them may be gone at any time. -/
inductive Serves (framework : Framework) (settings : Settings) (limits : Limits) :
    (kept : String → Option Program) → List (Context × Request) → List (Option Answer) → Prop where
  | done {kept : String → Option Program} : Serves framework settings limits kept [] []
  | next {kept : String → Option Program} {ctx : Context} {r : Request}
      {rest : List (Context × Request)} {answer : Option Answer} {answers : List (Option Answer)}
      {cache after : Cache}
      (hcache : ∀ source program, cache.get? source = some program → kept source = some program)
      (hanswer : handle framework settings limits ctx cache r = (answer, after))
      (hrest : Serves framework settings limits (fun source => (after.get? source).or (kept source))
        rest answers) :
      Serves framework settings limits kept ((ctx, r) :: rest) (answer :: answers)

/-- How a request is answered that knows nothing of others. -/
def AnsweredAlone (framework : Framework) (settings : Settings) (limits : Limits) (ctx : Context)
    (r : Request) (answer : Option Answer) : Prop :=
  Option.Rel Answer.Matches answer (alone framework settings limits ctx r) ∧
    ∀ source, r.Evaluates framework source →
      Reports settings.printEnv
        ((Session.start settings.globals).run limits (context settings ctx) source.toList) answer

theorem handle_answeredAlone (framework : Framework) (settings : Settings) (ctx : Context)
    (h : Faithful limits cache.get?) (r : Request) :
    AnsweredAlone framework settings limits ctx r
      (handle framework settings limits ctx cache r).1 := by
  refine ⟨(handle_of_faithful framework settings ctx h r).1, ?_⟩
  intro source hsource
  rw [handle_of_evaluates settings limits ctx cache hsource]
  exact evaluate_reports settings ctx h hsource.2.2.2

theorem Serves.answeredAlone {framework : Framework} {kept : String → Option Program}
    {requests : List (Context × Request)} {answers : List (Option Answer)}
    (h : Serves framework settings limits kept requests answers) (hkept : Faithful limits kept) :
    List.Forall₂ (fun (ctx, r) => AnsweredAlone framework settings limits ctx r)
      requests answers := by
  -- Request after request; what is kept stays faithful.
  induction h with
  | done => exact .nil
  | @next kept ctx r rest answer answers cache after hcache hanswer _ ih =>
      have hfaithful : Faithful limits cache.get? := fun source program hfound =>
        hkept source program (hcache source program hfound)
      have hfirst := handle_answeredAlone framework settings ctx hfaithful r
      have hafter := (handle_of_faithful framework settings ctx hfaithful r).2
      rw [hanswer] at hfirst hafter
      refine .cons hfirst (ih ?_)
      intro source program hfound
      rcases Option.or_eq_some_iff.1 hfound with hnew | ⟨-, hold⟩
      · exact hafter source program hnew
      · exact hkept source program hold

/-- Requests one after another to a service without a timeout that starts with nothing kept, on any
framework and with any cache: each has the answer of a service that keeps nothing and is asked
nothing else, up to the name of the request and the note that a program was kept. The answer to the
evaluation of a source tells how a run of it ends in a session of its own. -/
theorem Serves.answers_alone {framework : Framework} {settings : Settings} {limits : Limits}
    {requests : List (Context × Request)} {answers : List (Option Answer)}
    (htimeout : settings.timeout = 0)
    (h : Serves framework settings limits (fun _ => none) requests answers) :
    List.Forall₂
      (fun (ctx, r) answer =>
        Option.Rel Answer.Matches answer (alone framework settings limits ctx r) ∧
          ∀ source, r.Evaluates framework source →
            Reports settings.printEnv
              ((Session.start settings.globals).run limits ctx source.toList) answer)
      requests answers := by
  have hcontext (ctx : Context) : context settings ctx = ctx := if_pos htimeout
  have hanswers := h.answeredAlone (faithful_none limits)
  unfold AnsweredAlone at hanswers
  simpa only [hcontext] using hanswers

/-- A letter as a source is a program that reads a variable. -/
theorem ofSource_letter {c : Char} {word : String} (h : Lexeme .word [c] .identifier word) :
    Program.ofSource 512 [c] = .ok [.var word ⟨1, 1⟩] := by
  have hsplits : Splits [c] [.lexeme [c] .identifier word] [] :=
    .lexeme h (h.longest_of_delimits delimits_nil) .done
  rw [Program.ofSource, Token.scan_of_splits hsplits]
  exact Program.ofTokens_of_walk rfl

/-- The same request twice, and one that fails: the second answer is of the program that the first
request left, and the third tells of a variable that nobody has set. -/
theorem Serves.answers_alone_kept :
    let settings : Settings := { cacheSize := 1, globals := [("g", .int 2)], printEnv := true }
    let request (body : String) : Context × Request :=
      ({}, ⟨"POST", "/api/eval", "application/json", "", body.toUTF8.toList⟩)
    let known := request "\x7b\"source\":\"g\"\x7d"
    let unknown := request "\x7b\"source\":\"h\"\x7d"
    let bindings := [("nil", "0"), ("true", "1"), ("false", "0"), ("g", "2")]
    let found (cached : Bool) : Option Answer := some (.results cached ["2"] bindings)
    let missing : Answer := .failed false ⟨.undefined "h", ⟨1, 1⟩⟩
    settings.timeout = 0 ∧
      Serves .json settings {} (fun _ => none) [known, known, unknown]
        [found false, found true, some missing] ∧
      known.2.Evaluates .json "g" ∧ unknown.2.Evaluates .json "h" ∧
      (∀ cached, Option.Rel Answer.Matches (found cached) (alone .json settings {} {} known.2) ∧
        Reports true ((Session.start settings.globals).run {} {} "g".toList) (found cached)) ∧
      Reports true ((Session.start settings.globals).run {} {} "h".toList) (some missing) ∧
      missing.status = 422 ∧
      (missing.body "").field? "error" = some (.object [("code", .string "RUNTIME_ERROR"),
        ("message", .string "Undefined variable 'h'"), ("line", .number "1"),
        ("column", .number "1")]) := by
  intro settings request known unknown bindings found missing
  have hknown : known.2.Evaluates .json "g" :=
    ⟨by decide +kernel, by decide, by decide +kernel, by decide⟩
  have hunknown : unknown.2.Evaluates .json "h" :=
    ⟨by decide +kernel, by decide, by decide +kernel, by decide⟩
  have hg : Program.ofSource 512 "g".toList = .ok [.var "g" ⟨1, 1⟩] :=
    ofSource_letter (@Lexeme.word 'g' [] "g" (by decide) (by simp) (by decide))
  have hh : Program.ofSource 512 "h".toList = .ok [.var "h" ⟨1, 1⟩] :=
    ofSource_letter (@Lexeme.word 'h' [] "h" (by decide) (by simp) (by decide))
  have hzero : Number.text (.int 0) = "0" := by decide +kernel
  have hone : Number.text (.int 1) = "1" := by decide +kernel
  have htwo : Number.text (.int 2) = "2" := by decide +kernel
  have hfound (cached : Bool) :
      execute settings {} {} [.var "g" ⟨1, 1⟩] cached = found cached := by
    change some (Answer.results cached [Number.text (.int 2)] [("nil", Number.text (.int 0)),
      ("true", Number.text (.int 1)), ("false", Number.text (.int 0)),
      ("g", Number.text (.int 2))]) = found cached
    rw [hzero, hone, htwo]
  have hfirst : handle .json settings {} {} [] known.2 =
      (found false, [("g", [.var "g" ⟨1, 1⟩])]) := by
    rw [handle_of_evaluates settings {} {} [] hknown, ← hfound]
    simp only [evaluate, parse, Bindings.get?, hg]
    rfl
  have hsecond : handle .json settings {} {} [("g", [.var "g" ⟨1, 1⟩])] known.2 =
      (found true, [("g", [.var "g" ⟨1, 1⟩])]) := by
    rw [handle_of_evaluates settings {} {} _ hknown, ← hfound]
    rfl
  have hthird : handle .json settings {} {} [] unknown.2 =
      (some missing, [("h", [.var "h" ⟨1, 1⟩])]) := by
    rw [handle_of_evaluates settings {} {} _ hunknown]
    simp only [evaluate, parse, Bindings.get?, hh]
    rfl
  have hserves : Serves .json settings {} (fun _ => none) [known, known, unknown]
      [found false, found true, some missing] := by
    refine .next ?_ hfirst (.next ?_ hsecond (.next ?_ hthird .done))
    · intro source p hfound
      cases hfound
    · intro source p hfound
      rw [hfound]
      rfl
    · intro source p hfound
      cases hfound
  have hmessage : Fault.message ⟨.undefined "h", ⟨1, 1⟩⟩ = "Undefined variable 'h'" := by decide
  have hdigit : Decimal.intText 1 = "1" := by decide +kernel
  have herror : (missing.body "").field? "error" = some (.object [("code", .string "RUNTIME_ERROR"),
      ("message", .string "Undefined variable 'h'"), ("line", .number "1"),
      ("column", .number "1")]) := by
    change some (faultJson _) = _
    rw [faultJson, hmessage]
    simp only [countField, hdigit]
    rfl
  refine ⟨rfl, hserves, hknown, hunknown, ?_⟩
  rcases Serves.answers_alone rfl hserves with _ | ⟨hnew, _ | ⟨hkept, _ | ⟨hfailed, -⟩⟩⟩
  refine ⟨fun cached => ?_, hfailed.2 "h" hunknown, rfl, herror⟩
  cases cached with
  | false => exact ⟨hnew.1, hnew.2 "g" hknown⟩
  | true => exact ⟨hkept.1, hkept.2 "g" hknown⟩

end Service
end Reckoner
