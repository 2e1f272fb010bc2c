import Reckoner.Command.Perform
import Std.Time.DateTime.Timestamp

/-!
# The command line

The outer layer: it reads the files that a command names, hands them to the library, prints what
comes back, and holds the dialogue line by line.
-/

namespace Reckoner.Shell

/-- The files with the one at a path among them, if it can be read. -/
def addFile (files : Files) (path : String) : IO Files := do
  if path.isEmpty then return files
  try
    let content ← IO.FS.readBinFile path
    return files.set path content.toList
  catch _ => return files

/-- The files that an invocation names. -/
def gather (i : Invocation) : IO Files := do
  let files ← addFile [] i.config
  match i.command with
  | .run file _ _ | .tokens file | .ast file => addFile files file
  | .repl | .serve _ => return files

/-- Makes a file that is not there yet. -/
def touch (path : String) : IO Unit := do
  try
    let _ ← IO.FS.Handle.mk path .append
  catch _ => return ()

/-- A mark for an entry of the history: random bytes and the time of the clock. -/
def newStamp : IO Stamp := do
  let id ← IO.getRandomBytes 10
  let now ← Std.Time.Timestamp.now
  let nanoseconds := now.toNanosecondsSinceUnixEpoch.toInt.toNat
  return {
    id := String.ofList (id.toList.flatMap fun b => Text.hex 2 b.toNat)
    time := .ofUnix (nanoseconds / 1000000000) (nanoseconds % 1000000000) }

/-- Bytes up to a newline, the end of the input or the limit of a line, over those read before. -/
partial def takeLine (input : IO.FS.Stream) (read : List UInt8) (size : Nat) : IO Content := do
  let next ← input.read 1
  match next.toList with
  | [] => return read.reverse
  | b :: _ =>
    if b = Repl.newline || Repl.lineLimit ≤ size + 1 then return (b :: read).reverse
    else takeLine input (b :: read) (size + 1)

/-- Writes the history back if a line has changed it. -/
def save (before after : Repl) : IO Unit := do
  match after.history with
  | none => return ()
  | some appender =>
    let content := (after.files.get? appender.file).getD []
    if content != (before.files.get? appender.file).getD [] then
      IO.FS.writeBinFile appender.path ⟨content.toArray⟩

/-- Holds a dialogue, and says why it ended early. -/
partial def converse (input output : IO.FS.Stream) (r : Repl) : IO (Option CommandError) := do
  output.putStr Repl.prompt
  output.flush
  let read := Repl.Input.ofBytes (← takeLine input [] 0)
  match read.lines with
  | [] =>
    output.putStr "\n"
    return if read.overlong then some .lineTooLong else none
  | line :: _ =>
    let (answer, next) := r.enter (← newStamp) line
    try
      save r next
    catch _ => pure ()
    match answer with
    | .stopped halt => return some (.ofHalt halt)
    | answer =>
      output.putStr answer.output
      converse input output next

/-- Prints how a command failed. -/
def report (output : IO.FS.Stream) (error : Option CommandError) : IO UInt32 := do
  match error with
  | none => return 0
  | some e =>
    output.putStr (e.text ++ "\n")
    return 1

/-- Holds the dialogue that a configuration asks for. -/
def talk (input output : IO.FS.Stream) (files : Files) (config : String) : IO UInt32 := do
  match Command.loadConfig {} files config with
  | .error e => report output (some e)
  | .ok cfg =>
    if !cfg.historyFile.isEmpty then touch cfg.historyFile
    match Command.startRepl {} cfg (← addFile files cfg.historyFile) with
    | .error e => report output (some e)
    | .ok r => report output (← converse input output r)

/-- Carries out a command line, and tells the status to end with. -/
def perform (words : List String) : IO UInt32 := do
  let output ← IO.getStdout
  let config := (← IO.getEnv "BASIC_CONFIG").getD ""
  match Invocation.ofWords words config with
  | .error e => report output (some (.usage e))
  | .ok i =>
    let files ← gather i
    match i.command with
    | .repl => talk (← IO.getStdin) output files i.config
    | _ =>
      let outcome := i.perform {} files [] fun _ => {}
      output.putStr outcome.printed
      return UInt32.ofNat outcome.status

end Reckoner.Shell

/-- Carries out a command line. -/
def main (words : List String) : IO UInt32 :=
  Reckoner.Shell.perform words
