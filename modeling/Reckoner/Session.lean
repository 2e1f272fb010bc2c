import Reckoner.Eval
import Reckoner.Expr.Parser
import Reckoner.Files
import Reckoner.Text.Utf8

/-!
# Sessions

A session runs one source after another over the same environment. A source is parsed as a whole
before anything is evaluated; then its statements are evaluated in order up to the first that fails.

* `Limits`, `Limits.Override` — what bounds a run, and changes to it for one caller;
* `Context` — what may call a run off, and when;
* `Record` — the log of a run;
* `Session.run`, `Session.exec`, `Session.runFile` — runs of a source, a parsed program and a file.
-/

namespace Reckoner

/-! ## Limits and context -/

/-- What bounds a run; zero stands for no bound. -/
structure Limits where
  /-- Nanoseconds. -/
  timeout : Nat := 0
  depth : Nat := 512
  rounds : Nat := 0
  /-- Every evaluated statement is logged. -/
  logging : Bool := true

/-- Changes to limits. Bounds that are not positive stand for no bound. -/
structure Limits.Override where
  timeout : Option Int := none
  depth : Option Int := none
  rounds : Option Int := none
  logging : Option Bool := none

/-- The limits with the changes made. -/
def Limits.override (limits : Limits) (changes : Limits.Override) : Limits :=
  { timeout := (changes.timeout.map Int.toNat).getD limits.timeout
    depth := (changes.depth.map Int.toNat).getD limits.depth
    rounds := (changes.rounds.map Int.toNat).getD limits.rounds
    logging := changes.logging.getD limits.logging }

/-- The circumstances of a run. -/
structure Context where
  /-- When the run is called off by who asked for it. -/
  expiry : Expiry := .never
  /-- A time limit was set already, so that the timeout of the limits is not. -/
  hasDeadline : Bool := false
  /-- How many looks a run takes in a time, in nanoseconds from its beginning. How fast runs are is
  not in the program, and this may be any function; unless told otherwise a look comes every
  microsecond. -/
  looks : Nat → Nat := fun time => time / 1000
  /-- The rounds after which a loop is left unfinished. -/
  fuel : Nat := 0x4000000000000000

/-- When a run with a timeout is called off; zero is no timeout. -/
def Context.expiryWithin (ctx : Context) (timeout : Nat) : Expiry :=
  if timeout = 0 ∨ ctx.hasDeadline then ctx.expiry else ctx.expiry.orTimeout (ctx.looks timeout)

/-- The context with a deadline after some time, whatever it had before. -/
def Context.withDeadline (ctx : Context) (time : Nat) : Context :=
  { ctx with expiry := ctx.expiry.orTimeout (ctx.looks time), hasDeadline := true }

/-- What bounds loops in a context. -/
def Context.budget (ctx : Context) (limits : Limits) : Budget :=
  { fuel := ctx.fuel, maxRounds := limits.rounds }

/-! ## Log -/

/-- The stage at which a run failed. -/
inductive Stage where
  | parse
  | evaluation

/-- An entry of the log. -/
inductive Record where
  | evaluated (statement : Nat) (result : String)
  | failed (stage : Stage) (fault : Fault)
  | exitCalled

/-- The entry for a fault. -/
def Record.ofFault (stage : Stage) (fault : Fault) : Record :=
  if fault.isExit then .exitCalled else .failed stage fault

/-- The entries for the end of a run without results. -/
def Record.ofHalt (stage : Stage) : Halt → List Record
  | .fault fault => [.ofFault stage fault]
  | .unfinished _ => []

/-! ## Runs -/

/-- A run's results or why it stopped, and its log. -/
structure Reply where
  outcome : Except Halt (List Value)
  log : List Record

/-- A session: the environment that its runs share. -/
structure Session where
  env : Environment

namespace Session

/-- A session whose environment has the given names beside the built-in ones. -/
def start (globals : Bindings Number) : Session :=
  ⟨globals.foldl (fun env (name, n) => env.set name ⟨n, .nowhere⟩) .global⟩

/-- Evaluates statements from the number `index` on. -/
def execFrom (budget : Budget) (logging : Bool) :
    (index : Nat) → (program : Program) → State → Reply × State
  | _, [], state => (⟨.ok [], []⟩, state)
  | index, e :: rest, state =>
    match e.eval budget state with
    | (.error halt, state) => (⟨.error halt, Record.ofHalt .evaluation halt⟩, state)
    | (.ok value, state) =>
      let (reply, state) := execFrom budget logging (index + 1) rest state
      let log := if logging then .evaluated index value.text :: reply.log else reply.log
      (⟨reply.outcome.map (value :: ·), log⟩, state)

/-- The state that a run begins with. -/
def begun (limits : Limits) (ctx : Context) (s : Session) : State :=
  ⟨s.env, ctx.expiryWithin limits.timeout⟩

/-- Runs a parsed program. -/
def exec (limits : Limits) (ctx : Context) (program : Program) (s : Session) : Reply × Session :=
  let (reply, state) := execFrom (ctx.budget limits) limits.logging 0 program (s.begun limits ctx)
  (reply, ⟨state.env⟩)

/-- Runs a source. -/
def run (limits : Limits) (ctx : Context) (source : List Char) (s : Session) : Reply × Session :=
  match Program.ofSource limits.depth source with
  | .error fault => (⟨.error (.fault fault), [.ofFault .parse fault]⟩, s)
  | .ok program => s.exec limits ctx program

/-- Runs the source in a file. -/
def runFile (limits : Limits) (ctx : Context) (files : Files) (path : String) (s : Session) :
    Except FileError (Reply × Session) :=
  match files.read path with
  | .error e => .error e
  | .ok content => .ok (s.run limits ctx (Text.decodeBytes content))

end Session
end Reckoner
