import Reckoner.Fault
import Reckoner.Json.Basic
import Reckoner.Text.Markup

/-!
# Answers of the service

* `Answer` — what a request is answered with;
* `Answer.status` — its status code;
* `Answer.body` — its body, a JSON object that leaves out what is empty.

The time that an evaluation took and the moment of a health check are for the sender of an answer to
add: they are no part of it.
-/

namespace Reckoner.Service

open Decimal (intText)

/-- What a request is answered with. -/
inductive Answer where
  | healthy (version : String)
  /-- A program's results, and the bindings it left if they are wanted. -/
  | results (cached : Bool) (values : List String) (bindings : List (String × String))
  /-- A program that was not parsed or not evaluated to its end. -/
  | failed (cached : Bool) (fault : Fault)
  | tokens (tokens : List Token)
  | noTokens (fault : Fault)
  | program (statements : List String)
  | noProgram (fault : Fault)
  | badBody
  | emptySource
  | wrongMethod
  | notFound (method path : String)

/-- The status for a class of faults. -/
def statusOf : Code → Nat
  | .lexical | .grammar | .exit => 400
  | .runtime | .limit => 422
  | .timeout => 408
  | .canceled => 503

/-- A number field that is left out when it is zero. -/
def countField (name : String) (n : Int) : List (String × Json) :=
  if n = 0 then [] else [(name, .number (intText n))]

/-- A list field that is left out when it is empty. -/
def listField (name : String) (items : List Json) : List (String × Json) :=
  if items.isEmpty then [] else [(name, .array items)]

/-- A fault as an object. -/
def faultJson (fault : Fault) : Json :=
  .object ([("code", .string fault.code.name), ("message", .string fault.message)]
    ++ countField "line" fault.pos.line ++ countField "column" fault.pos.column)

/-- A token as an object. -/
def tokenJson (t : Token) : Json :=
  .object ([("type", .string t.kind.name)]
    ++ (if t.literal.isEmpty then [] else [("literal", .string t.literal)])
    ++ [("line", .number (intText t.pos.line)), ("column", .number (intText t.pos.column))])

/-- A binding as an object. -/
def bindingJson (binding : String × String) : Json :=
  .object [("name", .string binding.1), ("value", .string binding.2)]

namespace Answer

/-- The status code of an answer. -/
def status : Answer → Nat
  | healthy _ | results .. | tokens _ | program _ | noProgram _ => 200
  | failed _ fault | noTokens fault => statusOf fault.code
  | badBody | emptySource => 400
  | wrongMethod => 405
  | notFound .. => 404

/-- The status code in the log, which is written before a request without an endpoint is refused. -/
def loggedStatus : Answer → Nat
  | wrongMethod | notFound .. => 200
  | answer => answer.status

/-- The body of a refusal. -/
def refusal (text : String) : Json :=
  .object [("error", .string text)]

/-- The body of an answer to the request with this name. -/
def body (name : String) : Answer → Json
  | healthy version => .object [("status", .string "healthy"), ("version", .string version)]
  | results cached values bindings =>
    .object ([("requestId", .string name), ("results", .array (values.map .string))]
      ++ listField "environment" (bindings.map bindingJson) ++ [("cached", .bool cached)])
  | failed cached fault =>
    .object [("requestId", .string name), ("results", .array []), ("error", faultJson fault),
      ("cached", .bool cached)]
  | tokens ts => .object [("tokens", .array (ts.map tokenJson))]
  | noTokens fault => .object [("error", faultJson fault)]
  | program statements =>
    .object ([("valid", .bool true)] ++ listField "statements" (statements.map .string))
  | noProgram fault => .object [("valid", .bool false), ("error", faultJson fault)]
  | badBody => refusal "Invalid request body"
  | emptySource => refusal "Source cannot be empty"
  | wrongMethod => refusal "Method Not Allowed"
  | notFound method path => refusal ("Cannot " ++ method ++ " " ++ Text.escapeMarkup path)

end Answer
end Reckoner.Service
