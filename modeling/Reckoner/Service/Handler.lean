import Reckoner.Expr.Printer
import Reckoner.Service.Answer
import Reckoner.Service.Request
import Reckoner.Session
import Reckoner.Text.Blank

/-!
# The service

The service answers requests one by one, each in a context of its own. Every evaluation has a
session of its own, so what requests share is only the cache of parsed programs.

* `Settings` — how the service is set up;
* `Cache` — programs by their sources;
* `Service.parse` — the program of a source, from the cache if it is there;
* `Service.handle` — the answer to a request.
-/

namespace Reckoner.Service

open Text (allBlank)

/-- How the service is set up. -/
structure Settings where
  version : String := ""
  /-- How many programs are kept; none when it is not positive. -/
  cacheSize : Int := 0
  globals : Bindings Number := []
  /-- Answers tell the bindings that a program left. -/
  printEnv : Bool := false
  /-- Nanoseconds for each evaluation; zero leaves the limit in force. -/
  timeout : Nat := 0

/-- Programs by their sources. -/
abbrev Cache := Bindings Program

/-- The program of a source and whether it was kept. Only what parses is kept. -/
def parse (settings : Settings) (limits : Limits) (cache : Cache) (source : String) :
    Except Fault (Program × Bool) × Cache :=
  match cache.get? source with
  | some program => (.ok (program, true), cache)
  | none =>
    match Program.ofSource limits.depth source.toList with
    | .error fault => (.error fault, cache)
    | .ok program =>
      (.ok (program, false), if 0 < settings.cacheSize then cache.set source program else cache)

/-- The context of an evaluation, from that of its request. -/
def context (settings : Settings) (ctx : Context) : Context :=
  if settings.timeout = 0 then ctx else ctx.withDeadline settings.timeout

/-- The bindings that a session holds, as texts. -/
def bindingTexts (s : Session) : List (String × String) :=
  s.env.inner.map fun (name, q) => (name, q.number.text)

/-- The answer of a program in a session of its own; none while it has not come to an end. -/
def execute (settings : Settings) (limits : Limits) (ctx : Context) (program : Program)
    (cached : Bool) : Option Answer :=
  let (reply, session) :=
    (Session.start settings.globals).exec limits (context settings ctx) program
  match reply.outcome with
  | .ok values =>
    some (.results cached (values.map Value.text)
      (if settings.printEnv then bindingTexts session else []))
  | .error (.fault fault) => some (.failed cached fault)
  | .error (.unfinished _) => none

/-- The answer to a source that is to be evaluated. -/
def evaluate (settings : Settings) (limits : Limits) (ctx : Context) (cache : Cache)
    (source : String) : Option Answer × Cache :=
  if allBlank source then (some .emptySource, cache)
  else
    match parse settings limits cache source with
    | (.error fault, cache) => (some (.failed false fault), cache)
    | (.ok (program, cached), cache) => (execute settings limits ctx program cached, cache)

/-- The answer to a source that is to be cut into tokens. -/
def tokenize (source : String) : Answer :=
  match Token.scan source.toList with
  | .ok tokens => .tokens tokens
  | .error fault => .noTokens fault

/-- The answer to a source that is to be parsed. -/
def describe (settings : Settings) (limits : Limits) (cache : Cache) (source : String) :
    Answer × Cache :=
  match parse settings limits cache source with
  | (.error fault, cache) => (.noProgram fault, cache)
  | (.ok (program, _), cache) => (.program (program.map Expr.text), cache)

/-- The answer that takes the source in the body of a request. -/
def withSource (framework : Framework) (r : Request) (cache : Cache)
    (answer : String → Option Answer × Cache) : Option Answer × Cache :=
  match framework.source? r with
  | none => (some .badBody, cache)
  | some source => answer source

/-- The answer of an endpoint. -/
def respond (framework : Framework) (settings : Settings) (limits : Limits) (ctx : Context)
    (cache : Cache) (r : Request) : Endpoint → Option Answer × Cache
  | .health => (some (.healthy settings.version), cache)
  | .eval => withSource framework r cache (evaluate settings limits ctx cache)
  | .tokens => withSource framework r cache fun source => (some (tokenize source), cache)
  | .parse => withSource framework r cache fun source =>
    let (answer, cache) := describe settings limits cache source
    (some answer, cache)

/-- The answer to a request; none while its program has not come to an end. -/
def handle (framework : Framework) (settings : Settings) (limits : Limits) (ctx : Context)
    (cache : Cache) (r : Request) : Option Answer × Cache :=
  match framework.endpoint? r.path with
  | none => (some (.notFound r.method r.path), cache)
  | some endpoint =>
    if framework.servedBy r.method endpoint.method then
      respond framework settings limits ctx cache r endpoint
    else (some .wrongMethod, cache)

end Reckoner.Service
