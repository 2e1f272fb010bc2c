import Reckoner.Number.Decimal
import Reckoner.Text.Letter

/-!
# Addresses to listen on

An address is a host and a port with a colon between them. A host that holds colons itself stands in
square brackets, and an empty host means every one.

* `AddressError` — why an address is refused;
* `Address.check` — the checks of an address.
-/

namespace Reckoner.Service

open Text (isDigit)
open Decimal (ofDigits)

/-- Why an address is refused. -/
inductive AddressError where
  | missingPort (address : String)
  | tooManyColons (address : String)
  | unclosedBracket (address : String)
  | strayOpening (address : String)
  | strayClosing (address : String)
  | portOutOfRange (port : String)
  | unknownPort (port : String)

/-- The refusal in words. -/
def AddressError.message : AddressError → String
  | missingPort address => "address " ++ address ++ ": missing port in address"
  | tooManyColons address => "address " ++ address ++ ": too many colons in address"
  | unclosedBracket address => "address " ++ address ++ ": missing ']' in address"
  | strayOpening address => "address " ++ address ++ ": unexpected '[' in address"
  | strayClosing address => "address " ++ address ++ ": unexpected ']' in address"
  | portOutOfRange port => "address " ++ port ++ ": invalid port"
  | unknownPort port => "lookup tcp4/" ++ port ++ ": unknown port"

namespace Address

/-- The check of a port: a number below 65536, or nothing for any port. -/
def checkPort (port : List Char) : Except AddressError Unit :=
  let (negative, ds) :=
    match port with
    | '+' :: rest => (false, rest)
    | '-' :: rest => (true, rest)
    | ds => (false, ds)
  if !ds.all isDigit then .error (.unknownPort (String.ofList port))
  else if 65536 ≤ ofDigits ds || (negative && ofDigits ds ≠ 0) then
    .error (.portOutOfRange (String.ofList port))
  else .ok ()

/-- What follows the last colon, if there is one. -/
def port? (cs : List Char) : Option (List Char) :=
  if cs.contains ':' then some (cs.reverse.takeWhile (· != ':')).reverse else none

/-- The port of an address whose host stands in brackets, from what follows the opening one. -/
def bracketed (address : String) (cs port : List Char) : Except AddressError (List Char) :=
  if !cs.contains ']' then .error (.unclosedBracket address)
  else
    match (cs.dropWhile (· != ']')).drop 1 with
    | ':' :: rest =>
      if rest.contains ':' then .error (.tooManyColons address)
      else if cs.contains '[' then .error (.strayOpening address)
      else if rest.contains ']' then .error (.strayClosing address)
      else .ok port
    | _ => .error (.missingPort address)

/-- The port of an address whose host stands by itself. -/
def plain (address : String) (cs port : List Char) : Except AddressError (List Char) :=
  if 1 < cs.count ':' then .error (.tooManyColons address)
  else if cs.contains '[' then .error (.strayOpening address)
  else if cs.contains ']' then .error (.strayClosing address)
  else .ok port

/-- An address can be listened on, as far as it can be told from its text. -/
def check (address : String) : Except AddressError Unit := do
  let cs := address.toList
  match port? cs with
  | none => throw (.missingPort address)
  | some port =>
    match cs with
    | '[' :: rest => checkPort (← bracketed address rest port)
    | _ => checkPort (← plain address cs port)

end Address
end Reckoner.Service
