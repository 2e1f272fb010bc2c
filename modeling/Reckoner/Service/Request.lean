import Reckoner.Document
import Reckoner.Files
import Reckoner.Json.Reader

/-!
# Requests to the service

* `Request` — a request as it arrives;
* `Endpoint` — what the service offers, each under one path and for one method;
* `Framework` — which requests reach an endpoint, and what is in their bodies;
* `Framework.json` — a framework that decodes bodies in JSON.

The framework is a package that is not part of the program.
-/

namespace Reckoner.Service

/-- A request as it arrives. -/
structure Request where
  method : String
  /-- The path, with the query that may follow it. -/
  target : String
  /-- The media type of the body, with parameters that may follow it; empty when none is given. -/
  contentType : String
  /-- The name that the client gives the request; empty when it gives none. -/
  id : String
  body : Content

/-- What the service offers. -/
inductive Endpoint where
  | health
  | eval
  | tokens
  | parse
  deriving DecidableEq

namespace Endpoint

/-- All that the service offers. -/
def all : List Endpoint :=
  [health, eval, tokens, parse]

/-- Where an endpoint is found. -/
def path : Endpoint → String
  | health => "/api/health"
  | eval => "/api/eval"
  | tokens => "/api/tokens"
  | parse => "/api/parse"

/-- The method that an endpoint is for. -/
def method : Endpoint → String
  | health => "GET"
  | _ => "POST"

end Endpoint

/-- An ASCII letter in lower case. -/
def lowerAscii (c : Char) : Char :=
  if 'A' ≤ c ∧ c ≤ 'Z' then Char.ofNat (c.toNat + 32) else c

namespace Request

/-- The path of a request. -/
def path (r : Request) : String :=
  match r.target.toList.takeWhile fun c => c != '?' && c != '#' with
  | [] => "/"
  | cs => String.ofList cs

/-- A blank around the value of a header. -/
def isPadding (c : Char) : Bool :=
  c == ' ' || c == '\t'

/-- The value of a header without the blanks around it. -/
def headerValue (value : String) : String :=
  String.ofList
    ((value.toList.dropWhile isPadding).reverse.dropWhile isPadding).reverse

/-- The name of the request: the client's, or else the one that is given here. -/
def name (r : Request) (fresh : String) : String :=
  let given := headerValue r.id
  if given.isEmpty then fresh else given

/-- The body is announced as JSON, parameters and case aside. -/
def isJson (r : Request) : Bool :=
  let media := ((headerValue r.contentType).toList.takeWhile (· != ';')).map lowerAscii
  "json".toList.reverse.isPrefixOf media.reverse

/-- The source that the body carries; empty when it has no such field. -/
def source? (r : Request) : Option String :=
  if r.isJson then
    (Json.readBytes? r.body).bind
      (Dialect.json.record?
        [("source", Dialect.json.update Dialect.json.string?)] "")
  else none

end Request

/-! ## Frameworks -/

/-- What the service leaves to the framework that it stands on. -/
structure Framework where
  /-- A path leads to where an endpoint is. -/
  leadsTo : (path place : String) → Bool
  /-- A method is served by what is there for another one. -/
  servedBy : (method offered : String) → Bool
  /-- The source in the body of a request, where the body can be decoded. -/
  source? : Request → Option String

namespace Framework

/-- The endpoint that a path leads to. -/
def endpoint? (framework : Framework) (path : String) : Option Endpoint :=
  Endpoint.all.find? fun endpoint => framework.leadsTo path endpoint.path

/-- Paths in any case and with or without slashes at their end, and bodies in JSON. What is there to
be read can be asked for without its body. Bodies in other formats are refused. -/
def json : Framework where
  leadsTo path place :=
    place == String.ofList ((path.toList.map lowerAscii).reverse.dropWhile (· == '/')).reverse
  servedBy method offered := method == offered || (method == "HEAD" && offered == "GET")
  source? := Request.source?

end Framework
end Reckoner.Service
