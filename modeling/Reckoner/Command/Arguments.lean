import Reckoner.Text.Quoted

/-!
# Command lines

A command line is a sequence of flags, a command, the flags of that command and its arguments. A
flag begins with one or two dashes; its value follows an equals sign or is the next word. The first
word that is no flag, or a bare double dash, ends the flags.

* `Flag`, `takeFlags` — the flags at the head of a list of words;
* `UsageError` — why a command line is refused;
* `Command`, `Invocation` — what is asked for;
* `Invocation.ofWords` — the invocation that a command line stands for.
-/

namespace Reckoner

/-- Why a command line is refused. -/
inductive UsageError where
  | badFlag (word : String)
  | unknownFlag (name : String)
  | missingValue (name : String)
  | notYesOrNo (value name : String)
  | noCommand
  | unknownCommand (name : String)

/-- The refusal in words. -/
def UsageError.message : UsageError → String
  | badFlag word => "bad flag syntax: " ++ word
  | unknownFlag name => "flag provided but not defined: -" ++ name
  | missingValue name => "flag needs an argument: -" ++ name
  | notYesOrNo value name =>
    "invalid boolean value " ++ Text.quoted value ++ " for -" ++ name ++ ": parse error"
  | noCommand => "missing command"
  | unknownCommand name => "No help topic for '" ++ name ++ "'"

/-! ## Flags -/

/-- A flag that a command knows: its name, other names for it, and whether it has a value of its own
or says yes by standing there. -/
structure Flag where
  name : String
  aliases : List String := []
  takesValue : Bool := true

/-- What a word of a command line is. -/
inductive Word where
  | argument
  | endOfFlags
  | malformed
  | flag (name : String) (value : Option String)

/-- The name of a flag and the value after an equals sign, from what follows the dashes. -/
def Word.ofFlag : List Char → Word
  | [] => malformed
  | c :: rest =>
    if c = '-' ∨ c = '=' then malformed
    else
      let name := String.ofList (c :: rest.takeWhile (· != '='))
      match rest.dropWhile (· != '=') with
      | [] => flag name none
      | _ :: value => flag name (some (String.ofList value))

/-- What a word of a command line is. -/
def Word.ofText (word : String) : Word :=
  match word.toList with
  | ['-', '-'] => endOfFlags
  | '-' :: '-' :: rest => ofFlag rest
  | '-' :: c :: rest => ofFlag (c :: rest)
  | _ => argument

/-- Yes or no, as the value of a flag. -/
def yesOrNo? (value : String) : Option Bool :=
  if ["1", "t", "T", "true", "TRUE", "True"].contains value then some true
  else if ["0", "f", "F", "false", "FALSE", "False"].contains value then some false
  else none

/-- The flags at the head of some words with their values, and the words after them. -/
def takeFlags (known : List Flag) :
    (words : List String) → Except UsageError (List (String × String) × List String)
  | [] => .ok ([], [])
  | word :: rest =>
    match Word.ofText word with
    | .argument => .ok ([], word :: rest)
    | .endOfFlags => .ok ([], rest)
    | .malformed => .error (.badFlag word)
    | .flag name value? =>
      match known.find? fun f => f.name == name || f.aliases.contains name with
      | none => .error (.unknownFlag name)
      | some flag =>
        if flag.takesValue then
          match value? with
          | some value => do
            let (flags, rest) ← takeFlags known rest
            return ((flag.name, value) :: flags, rest)
          | none =>
            match rest with
            | [] => .error (.missingValue name)
            | value :: rest => do
              let (flags, rest) ← takeFlags known rest
              return ((flag.name, value) :: flags, rest)
        else
          match yesOrNo? (value?.getD "true") with
          | none => .error (.notYesOrNo (value?.getD "true") name)
          | some yes => do
            let (flags, rest) ← takeFlags known rest
            return ((flag.name, if yes then "true" else "false") :: flags, rest)

/-- The value of a flag: the last that was given. -/
def flagValue (flags : List (String × String)) (name : String) : String :=
  (flags.reverse.lookup name).getD ""

/-! ## Commands -/

/-- What is asked for. Program files are empty when none is named. -/
inductive Command where
  | run (file : String) (json printEnv : Bool)
  | repl
  | tokens (file : String)
  | ast (file : String)
  /-- An empty address leaves the choice to the configuration. -/
  | serve (addr : String)

/-- A command with the configuration it is to be carried out under. -/
structure Invocation where
  /-- The configuration's file; empty for none. -/
  config : String := ""
  command : Command

/-- The first of some words, empty when there is none. -/
def firstWord (words : List String) : String :=
  words.head?.getD ""

namespace Invocation

/-- The flags before the command. -/
def globalFlags : List Flag :=
  [{ name := "config", aliases := ["c"] }]

/-- The flags of `run`. -/
def runFlags : List Flag :=
  [{ name := "file", aliases := ["f"] }, { name := "json", takesValue := false },
    { name := "print-env", takesValue := false }]

/-- The flags of `serve`. -/
def serveFlags : List Flag :=
  [{ name := "addr" }]

/-- The command that some words stand for. -/
def commandOf : List String → Except UsageError Command
  | [] => .error .noCommand
  | "run" :: words => do
    let (flags, rest) ← takeFlags runFlags words
    let file := flagValue flags "file"
    return .run (if file.isEmpty then firstWord rest else file)
      (flagValue flags "json" == "true") (flagValue flags "print-env" == "true")
  | "repl" :: words => do
    let _ ← takeFlags [] words
    return .repl
  | "tokens" :: words => do
    let (_, rest) ← takeFlags [] words
    return .tokens (firstWord rest)
  | "ast" :: words => do
    let (_, rest) ← takeFlags [] words
    return .ast (firstWord rest)
  | "serve" :: words => do
    let (flags, _) ← takeFlags serveFlags words
    return .serve (flagValue flags "addr")
  | name :: _ => .error (.unknownCommand name)

/-- The invocation that a command line stands for, where `config` is the configuration to use when
none is named. -/
def ofWords (words : List String) (config : String) : Except UsageError Invocation := do
  let (flags, rest) ← takeFlags globalFlags words
  let named := if flags.any (·.1 == "config") then flagValue flags "config" else config
  return { config := named, command := ← commandOf rest }

end Invocation
end Reckoner
