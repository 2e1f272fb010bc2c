import Reckoner.Command.Arguments
import Reckoner.Config.Load
import Reckoner.Expr.Printer
import Reckoner.Json.Printer
import Reckoner.Repl.Dialogue
import Reckoner.Service.Address

/-!
# Carrying out commands

A command is a function of what it is run with, of the files of the working directory and of its
input; it prints a text, may end with an error, and may leave the files changed.

* `CommandError` — why a command fails;
* `Outcome` — what came of a command;
* `Invocation.perform` — carries out a command.
-/

namespace Reckoner

open History (Appender)

/-- Why a command fails. -/
inductive CommandError where
  | usage (error : UsageError)
  | config (error : ConfigError)
  | missingProgram
  | file (error : FileError)
  | history (error : History.Error)
  | fault (fault : Fault)
  /-- The program has not come to an end. -/
  | unfinished (pos : Position)
  | lineTooLong
  | address (error : Service.AddressError)
  /-- The address is in order, but nothing listens on it. -/
  | notListening (address : String)

namespace CommandError

/-- The failure in words. -/
def text : CommandError → String
  | usage error => error.message
  | config error => error.text
  | missingProgram => "missing program file"
  | file error => error.message
  | history error => error.message
  | fault f => f.text
  | unfinished pos => "unfinished " ++ pos.describe
  | lineTooLong => "bufio.Scanner: token too long"
  | address error => "failed to listen: listen tcp4: " ++ error.message
  | notListening place =>
    "failed to listen: listen tcp4 " ++ place ++ ": operation not supported"

/-- The failure that a program's end without results is. -/
def ofHalt : Halt → CommandError
  | .fault f => .fault f
  | .unfinished pos => .unfinished pos

/-- The failure that the early end of a dialogue is. -/
def ofStop : Repl.Stop → CommandError
  | .halt halt => ofHalt halt
  | .lineTooLong => .lineTooLong

end CommandError

/-- What came of a command. -/
structure Outcome where
  output : String := ""
  error : Option CommandError := none
  files : Files

namespace Outcome

/-- The status that the command ends with. -/
def status (o : Outcome) : Nat :=
  if o.error.isSome then 1 else 0

/-- All that the command prints, its failure in words at the end. -/
def printed (o : Outcome) : String :=
  match o.error with
  | none => o.output
  | some e => o.output ++ e.text ++ "\n"

end Outcome

namespace Command

/-- The configuration in a file, or the default one when no file is named. -/
def loadConfig (host : Host) (files : Files) (path : String) : Except CommandError Config :=
  if path.isEmpty then .ok {} else (Config.load host.float? files path).mapError .config

/-- The source in a program file. -/
def readProgram (files : Files) (path : String) : Except CommandError (List Char) :=
  if path.isEmpty then .error .missingProgram
  else ((files.read path).mapError .file).map Text.decodeBytes

/-- One line for each binding. -/
def environmentText (env : Environment) : String :=
  String.join (env.inner.map fun (name, q) =>
    "Key: " ++ name ++ ", Value: " ++ q.number.text ++ "\n")

/-- The bindings as an object, sorted by name. -/
def environmentJson (env : Environment) : Json :=
  .object ((env.inner.map fun (name, q) => (name, Json.string q.number.text)).mergeSort
    fun a b => decide (a.1 ≤ b.1))

/-- Results, and the bindings when they are wanted, as text or as one line of JSON. The line is the
compact form of `Json.text`, which stands for the package that writes it. -/
def resultsText (values : List Value) (env : Environment) (json printEnv : Bool) : String :=
  if json then
    let environment := if printEnv then [("environment", environmentJson env)] else []
    let results := Json.array (values.map fun v => .string v.text)
    (Json.object (("results", results) :: environment)).text ++ "\n"
  else
    (Value.list values).text ++ "\n" ++ if printEnv then environmentText env else ""

/-- Runs a program file. -/
def runProgram (host : Host) (cfg : Config) (source : List Char) (json printEnv : Bool) :
    Except CommandError String :=
  let (reply, session) :=
    (Session.start (cfg.globalNumbers host.float?)).run (cfg.limits {}) host.ctx source
  match reply.outcome with
  | .ok values => .ok (resultsText values session.env json (cfg.printEnv || printEnv))
  | .error halt => .error (.ofHalt halt)

/-- One line for each token: its place and its text. -/
def tokensText (source : List Char) : Except CommandError String :=
  match Token.scan source with
  | .ok ts => .ok (String.join (ts.map fun t => t.pos.short ++ "\t" ++ t.text ++ "\n"))
  | .error fault => .error (.fault fault)

/-- One line for each statement. -/
def statementsText (cfg : Config) (source : List Char) : Except CommandError String :=
  match Program.ofSource (cfg.limits {}).depth source with
  | .ok program => .ok (String.join (program.map fun e => e.text ++ "\n"))
  | .error fault => .error (.fault fault)

/-- The dialogue that a configuration asks for, at its beginning. -/
def startRepl (host : Host) (cfg : Config) (files : Files) : Except CommandError Repl := do
  let limits := cfg.limits {}
  let session := Session.start (cfg.globalNumbers host.float?)
  if cfg.historyFile.isEmpty then return { host, limits, session, history := none, files }
  let (appender, files) ← (Appender.start files cfg.historyFile).mapError .history
  return { host, limits, session, history := some appender, files }

/-- Talks with the user until the input or the dialogue ends. -/
def talk (host : Host) (cfg : Config) (files : Files) (input : Content) (stamp : Nat → Stamp) :
    Outcome :=
  match startRepl host cfg files with
  | .error e => { error := some e, files }
  | .ok dialogue =>
    let transcript := dialogue.converse stamp (.ofBytes input)
    { output := transcript.output
      error := transcript.stop.map .ofStop
      files := transcript.repl.files }

/-- The address that the service would listen on. -/
def checkAddress (cfg : Config) (addr : String) : Except CommandError String :=
  let chosen := if addr.isEmpty then cfg.addr else addr
  match Service.Address.check chosen with
  | .error e => .error (.address e)
  | .ok _ => .error (.notListening chosen)

end Command

namespace Invocation

/-- What a command prints that leaves the files as they are. -/
def printing (files : Files) (text : Except CommandError String) : Outcome :=
  match text with
  | .ok output => { output, files }
  | .error e => { error := some e, files }

/-- Carries out a command. `stamp` gives the marks of the history's entries by line. -/
def perform (i : Invocation) (host : Host) (files : Files) (input : Content)
    (stamp : Nat → Stamp) : Outcome :=
  match i.command with
  | .run file json printEnv => printing files do
    let cfg ← Command.loadConfig host files i.config
    let source ← Command.readProgram files file
    Command.runProgram host cfg source json printEnv
  | .tokens file => printing files do
    Command.tokensText (← Command.readProgram files file)
  | .ast file => printing files do
    let cfg ← Command.loadConfig host files i.config
    Command.statementsText cfg (← Command.readProgram files file)
  | .serve addr => printing files do
    Command.checkAddress (← Command.loadConfig host files i.config) addr
  | .repl =>
    match Command.loadConfig host files i.config with
    | .error e => { error := some e, files }
    | .ok cfg => Command.talk host cfg files input stamp

/-- Carries out a command line. -/
def performWords (words : List String) (config : String) (host : Host) (files : Files)
    (input : Content) (stamp : Nat → Stamp) : Outcome :=
  match ofWords words config with
  | .error e => { error := some (.usage e), files }
  | .ok i => i.perform host files input stamp

end Invocation
end Reckoner
