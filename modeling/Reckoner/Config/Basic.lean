import Reckoner.Bindings
import Reckoner.Duration
import Reckoner.Number.Basic
import Reckoner.Session
import Reckoner.Text.LowerCase

/-!
# Configuration

How programs are run by the command line and the service: limits, additional globals, logging, the
history file and the settings of the service.

* `Global`, `Global.float?` — what a configuration gives a name, and the number that this is;
* `Config` — a configuration as it is written;
* `ConfigError` — why one is refused;
* `Config.validate` — the checks, in a fixed order;
* `Config.limits`, `Config.globalNumbers`, `Config.loggerLevel` — what a configuration stands for.

Which number a value is a package for conversions tells, which is not part of the program. The
checks and the meaning of globals are over any such conversion; `Global.float?` is one.
-/

namespace Reckoner

open Text (quoted lowerCase isDigit isAsciiLetter)

/-- What a configuration gives a name: a number, a text, or something that stands for no number. -/
inductive Global where
  | number (x : Float)
  | text (s : String)
  | other

/-- The number that a value stands for: a number, or a text that reads as one. -/
def Global.float? : Global → Option Float
  | number x => some x
  | text s => (readFloat s).toOption
  | other => none

/-- A configuration as it is written. -/
structure Config where
  /-- A duration; empty for none. -/
  timeout : String := ""
  /-- Zero keeps the limit that was in force. -/
  depth : Int := 0
  /-- Zero keeps the limit that was in force. -/
  rounds : Int := 0
  logging : Option Bool := none
  /-- Names bound before a program runs, with values that must be numbers. -/
  globals : Bindings Global := []
  logLevel : String := "info"
  historyFile : String := ""
  printEnv : Bool := false
  addr : String := ":3000"
  cacheSize : Int := 1024

/-- Why a configuration is refused. -/
inductive ConfigError where
  | unsupportedFormat (format : String)
  | unsupportedExtension (extension : String)
  | unreadable (reason : String)
  | undecodable
  | missing
  | badTimeout (text : String) (reason : Duration.Error)
  | negativeTimeout
  | negativeDepth
  | negativeRounds
  | unknownLevel (level : String)
  | negativeCache
  | badGlobalName (name : String)
  | globalNotNumber (name : String)

namespace ConfigError

/-- The refusal lies outside the configuration's text. -/
def isInternal : ConfigError → Bool
  | unreadable _ => true
  | _ => false

/-- The step at which a configuration was refused. -/
def operation : ConfigError → String
  | unsupportedFormat _ => "config.LoadFromString"
  | unsupportedExtension _ | unreadable _ => "config.Load"
  | undecodable => "config.decode"
  | _ => "config.Validate"

/-- The refusal in words. -/
def message : ConfigError → String
  | unsupportedFormat format => "unsupported format: " ++ format
  | unsupportedExtension extension => "unsupported config format: " ++ extension
  | unreadable _ => "could not read config file"
  | undecodable => "could not decode config"
  | missing => "config is nil"
  | badTimeout text _ => "invalid runtime timeout " ++ quoted text
  | negativeTimeout => "runtime timeout must not be negative"
  | negativeDepth => "max_expression_depth must not be negative"
  | negativeRounds => "max_loop_iterations must not be negative"
  | unknownLevel level => "unknown log level " ++ quoted level
  | negativeCache => "server cache_size must not be negative"
  | badGlobalName name => "global " ++ quoted name ++ " is not a valid identifier"
  | globalNotNumber name => "global " ++ quoted name ++ " is not a number"

/-- The reason behind the refusal, where it is shown. -/
def reason? : ConfigError → Option String
  | unreadable reason => some reason
  | badTimeout _ reason => some reason.message
  | _ => none

/-- The refusal on one line. -/
def text (e : ConfigError) : String :=
  (if e.isInternal then "<internal> " else "<invalid> ") ++ e.operation ++ ": "
    ++ (e.reason?.map (· ++ ", ")).getD "" ++ e.message

end ConfigError

namespace Config

/-! ## Globals -/

/-- A name that can be given to a global: an ASCII letter or underscore, and then ASCII letters,
digits and underscores. -/
def validName (name : String) : Bool :=
  match name.toList with
  | [] => false
  | c :: rest =>
    (isAsciiLetter c || c == '_') && rest.all fun c => isAsciiLetter c || isDigit c || c == '_'

/-- Whole numbers below `10 ^ 18` become integers. -/
def globalNumber (x : Float) : Number :=
  if Binary.isWhole x && Binary.magnitude x < 1e18 then .int (Int64.ofInt (Binary.truncate x))
  else .float x

/-- The globals that are numbers, under their names in lower case, as identifiers are in a source.
-/
def globalNumbers (cfg : Config) (float? : Global → Option Float) : Bindings Number :=
  cfg.globals.foldl
    (fun (bindings : Bindings Number) (name, value) =>
      match float? value with
      | some x => bindings.set (lowerCase name) (globalNumber x)
      | none => bindings)
    []

/-! ## Checks -/

/-- The levels of the log. -/
def logLevels : List String :=
  ["trace", "debug", "info", "warn", "error", "fatal"]

/-- The check of the timeout, which may be left out. -/
def checkTimeout (timeout : String) : Except ConfigError Unit :=
  if timeout.isEmpty then .ok ()
  else
    match Duration.read timeout with
    | .error reason => .error (.badTimeout timeout reason)
    | .ok d => if d < 0 then .error .negativeTimeout else .ok ()

/-- The check of one global. -/
def checkGlobal (float? : Global → Option Float) (name : String) (value : Global) :
    Except ConfigError Unit :=
  if !validName name then .error (.badGlobalName name)
  else if (float? value).isNone then .error (.globalNotNumber name)
  else .ok ()

/-- Every setting makes sense. The checks come in this order, and the first that fails is reported.
-/
def validate (cfg : Config) (float? : Global → Option Float) : Except ConfigError Unit := do
  checkTimeout cfg.timeout
  if cfg.depth < 0 then throw .negativeDepth
  if cfg.rounds < 0 then throw .negativeRounds
  if !cfg.logLevel.isEmpty && !logLevels.contains (lowerCase cfg.logLevel) then
    throw (.unknownLevel cfg.logLevel)
  if cfg.cacheSize < 0 then throw .negativeCache
  cfg.globals.forM fun (name, value) => checkGlobal float? name value

/-- The check of a configuration that may not be there. -/
def validate? (float? : Global → Option Float) : Option Config → Except ConfigError Unit
  | none => .error .missing
  | some cfg => cfg.validate float?

/-! ## Meaning -/

/-- The limits with those of the configuration in force. -/
def limits (cfg : Config) (base : Limits) : Limits :=
  { timeout :=
      if cfg.timeout.isEmpty then base.timeout
      else
        match Duration.read cfg.timeout with
        | .ok d => d.toNat
        | .error _ => base.timeout
    depth := if 0 < cfg.depth then cfg.depth.toNat else base.depth
    rounds := if 0 < cfg.rounds then cfg.rounds.toNat else base.rounds
    logging := cfg.logging.getD base.logging }

/-- The level of the log. -/
def loggerLevel (cfg : Config) : String :=
  if cfg.logLevel.isEmpty then "info" else lowerCase cfg.logLevel

end Config
end Reckoner
