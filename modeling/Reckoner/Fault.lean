import Reckoner.Token.Basic

/-!
# Faults

What stops a run: a cause and the place it is reported at. Every stage reports its failures in this
form, and each is final for the run that meets it.

* `Cause` — what went wrong;
* `Code` — the class of a cause;
* `Fault` — a cause with its place;
* `Failure` — the report of an error as a chain of reasons, of which faults are one kind.
-/

namespace Reckoner

open Text (quoted)
open Decimal (natText)

/-- The class of a fault. -/
inductive Code where
  | lexical
  | grammar
  | runtime
  | exit
  | limit
  | timeout
  | canceled
  deriving DecidableEq

/-- The name of a class of faults. -/
def Code.name : Code → String
  | lexical => "LEX_ERROR"
  | grammar => "SYNTAX_ERROR"
  | runtime => "RUNTIME_ERROR"
  | exit => "EXIT"
  | limit => "LIMIT_EXCEEDED"
  | timeout => "TIMEOUT"
  | canceled => "CANCELED"

/-- What the grammar wanted where it met another token. -/
inductive Wanted where
  | identifier
  | equals
  | openParen
  | closeParen
  | colon
  | keyword (word : String)
  | operand

/-- What was wanted, in words. -/
def Wanted.describe : Wanted → String
  | identifier => "identifier"
  | equals => "'='"
  | openParen => "'('"
  | closeParen => "')'"
  | colon => "':'"
  | keyword word => "'" ++ word ++ "'"
  | operand => "int, float, identifier, '(', 'if', 'switch', 'while' or unary operator"

/-- The part that a value plays where a number is needed. -/
inductive Role where
  | left
  | right
  | operand
  | ifCondition
  | whileCondition

/-- The part in words. -/
def Role.describe : Role → String
  | left => "left operand"
  | right => "right operand"
  | operand => "operand"
  | ifCondition => "if condition"
  | whileCondition => "while condition"

/-- What went wrong. -/
inductive Cause where
  /-- An exclamation mark that no equals sign follows. -/
  | loneBang
  /-- A character that begins no lexeme. -/
  | strayCharacter (c : Char)
  | unexpected (wanted : Wanted) (got : Token)
  | badNumber (literal : String)
  /-- The program asked to stop. -/
  | exit
  | tooDeep (limit : Nat)
  | tooManyRounds (limit : Nat)
  | undefined (name : String)
  | noValue (role : Role)
  | notNumber (role : Role)
  | divisionByZero
  | timedOut
  | canceled

namespace Cause

/-- The class of a cause. -/
def code : Cause → Code
  | loneBang | strayCharacter _ => .lexical
  | unexpected .. | badNumber _ => .grammar
  | exit => .exit
  | tooDeep _ | tooManyRounds _ => .limit
  | undefined _ | noValue _ | notNumber _ | divisionByZero => .runtime
  | timedOut => .timeout
  | canceled => .canceled

/-- The cause in words. -/
def message : Cause → String
  | loneBang => "Expected '=' after '!'"
  | strayCharacter c => "Invalid character '" ++ String.singleton c ++ "'"
  | unexpected wanted got => "Expected " ++ wanted.describe ++ ", got " ++ got.text
  | badNumber literal => "invalid number " ++ quoted literal
  | exit => "Exiting..."
  | tooDeep limit => "expression nesting exceeds " ++ natText limit ++ " levels"
  | tooManyRounds limit => "while loop exceeded " ++ natText limit ++ " iterations"
  | undefined name => "Undefined variable '" ++ name ++ "'"
  | noValue role => role.describe ++ " has no value"
  | notNumber role => role.describe ++ " is not a number"
  | divisionByZero => "Division by zero"
  | timedOut => "run timed out"
  | canceled => "run canceled"

/-- The reason behind the cause, where there is one. -/
def reason? : Cause → Option String
  | timedOut => some "context deadline exceeded"
  | canceled => some "context canceled"
  | _ => none

end Cause

/-- A cause with the place it is reported at. -/
structure Fault where
  cause : Cause
  pos : Position

/-- A report of an error: a plain text or a coded one with a place, over the report of what caused
it, if anything did. -/
inductive Failure where
  | plain (message : String) (cause : Option Failure)
  | coded (code : String) (message : String) (pos : Position) (cause : Option Failure)

namespace Failure

/-- The whole report on one line. A request to exit shows its message only. -/
def text : Failure → String
  | plain message none => message
  | plain message (some cause) => message ++ ": " ++ cause.text
  | coded code message pos cause =>
    if code == Code.exit.name then message
    else
      let here := code ++ ": " ++ message ++ " at " ++ pos.describe
      match cause with
      | none => here
      | some cause => here ++ ": " ++ cause.text

/-- The code of the first coded report in the chain, empty when there is none. -/
def codeName : Failure → String
  | coded code _ _ _ => code
  | plain _ none => ""
  | plain _ (some cause) => cause.codeName

/-- The report says that the program asked to stop. -/
def isExit (f : Failure) : Bool :=
  f.codeName == Code.exit.name

/-- The place of a coded report. -/
def pos? : Failure → Option Position
  | plain .. => none
  | coded _ _ pos _ => some pos

/-- The report has a cause below it. -/
def hasCause : Failure → Bool
  | plain _ cause => cause.isSome
  | coded _ _ _ cause => cause.isSome

end Failure

namespace Fault

/-- The class of a fault. -/
def code (f : Fault) : Code := f.cause.code

/-- The fault in words, without its place. -/
def message (f : Fault) : String := f.cause.message

/-- The report of a fault. -/
def report (f : Fault) : Failure :=
  .coded f.code.name f.message f.pos (f.cause.reason?.map (Failure.plain · none))

/-- The report of a fault on one line. -/
def text (f : Fault) : String := f.report.text

/-- The program asked to stop. -/
def isExit (f : Fault) : Bool := f.code == .exit

end Fault
end Reckoner
