import Reckoner.Config.Basic
import Reckoner.History.File
import Reckoner.Repl.Input
import Reckoner.Session

/-!
# The interactive dialogue

Each line is run in one session, and its results or its fault are shown before the next prompt.
Blank lines are passed over. The program's request to exit ends the dialogue. Every line that was
run is added to the history if there is one; a history that cannot be added to does not stop the
dialogue.

* `Stamp` — what marks an entry of the history;
* `Host` — what the program is run with;
* `Repl` — the state between two lines;
* `Repl.enter` — one line;
* `Repl.answers` — line after line;
* `Repl.converse` — a whole dialogue with what it printed.
-/

namespace Reckoner

open History (Appender Entry)

/-- What marks an entry of the history. -/
structure Stamp where
  id : String := ""
  time : Timestamp := .zero

/-- What the program is run with and is no part of it. -/
structure Host where
  /-- When runs are called off, and how fast they are. -/
  ctx : Context := {}
  /-- How the history is written and read. -/
  codec : History.Codec := .json
  /-- The number that the value of a global stands for. -/
  float? : Global → Option Float := Global.float?

/-- The state of a dialogue between two lines. -/
structure Repl where
  host : Host
  limits : Limits
  session : Session
  history : Option Appender
  /-- The working directory, in which the history is kept. -/
  files : Files

namespace Repl

/-- What asks for a line. -/
def prompt : String := "basic > "

/-- The answer to a line. -/
inductive Answer where
  /-- The line was blank. -/
  | nothing
  /-- Results or a fault, in words. -/
  | shown (text : String)
  /-- The end of the dialogue: the program asked for it, or has not come to an end itself. -/
  | stopped (halt : Halt)

/-- What is printed after the prompt. -/
def Answer.output : Answer → String
  | nothing => ""
  | shown text => text ++ "\n"
  | stopped _ => ""

/-- The history with an entry added, if there is a history and it can be added to. -/
def record (r : Repl) (entry : Entry) : Repl :=
  match r.history with
  | none => r
  | some appender =>
    match appender.append r.host.codec r.files [entry] with
    | .ok files => { r with files }
    | .error _ => r

/-- The entry for a line. -/
def entryOf (stamp : Stamp) (line : List Char) (result error : String) : Entry :=
  { id := stamp.id, time := stamp.time, source := String.ofList line, result, error }

/-- One line. -/
def enter (r : Repl) (stamp : Stamp) (line : List Char) : Answer × Repl :=
  if line.all Text.isBlank then (.nothing, r)
  else
    let (reply, session) := r.session.run r.limits r.host.ctx line
    let r := { r with session }
    match reply.outcome with
    | .ok values =>
      let text := (Value.list values).text
      (.shown text, r.record (entryOf stamp line text ""))
    | .error (.fault fault) =>
      let r := r.record (entryOf stamp line "" fault.text)
      (if fault.isExit then .stopped (.fault fault) else .shown fault.text, r)
    | .error (.unfinished pos) => (.stopped (.unfinished pos), r)

/-- Line after line, up to the first that ends the dialogue. The stamps are numbered by line. -/
def answers (stamp : Nat → Stamp) : (index : Nat) → List (List Char) → Repl → List Answer × Repl
  | _, [], r => ([], r)
  | index, line :: rest, r =>
    match r.enter (stamp index) line with
    | (.stopped halt, r) => ([.stopped halt], r)
    | (answer, r) =>
      let (later, r) := answers stamp (index + 1) rest r
      (answer :: later, r)

/-- Why a dialogue ended before its input. -/
inductive Stop where
  | halt (halt : Halt)
  | lineTooLong

/-- A dialogue: what it printed, why it ended early, and the state it left. -/
structure Transcript where
  output : String
  stop : Option Stop
  repl : Repl

/-- What the answers print, each after a prompt. -/
def outputOf (answers : List Answer) : String :=
  String.join (answers.map fun answer => prompt ++ answer.output)

/-- A whole dialogue. When the input ends, or cannot be read on, there is a prompt without a line.
-/
def converse (r : Repl) (stamp : Nat → Stamp) (input : Input) : Transcript :=
  let (answers, repl) := r.answers stamp 0 input.lines
  match answers.getLast? with
  | some (.stopped halt) => { output := outputOf answers, stop := some (.halt halt), repl }
  | _ =>
    { output := outputOf answers ++ prompt ++ "\n"
      stop := if input.overlong then some .lineTooLong else none
      repl }

end Repl
end Reckoner
