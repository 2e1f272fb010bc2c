import Reckoner.Document
import Reckoner.Number.Word

/-!
# YAML documents

A document is a tree of mappings, lists and scalars. A scalar keeps the text that was written; what
a plain one stands for is decided by the look of that text.

* `Scalar`, `Node` — the parts of a document;
* `Scalar.meaning` — what a scalar stands for: nothing, a truth value, a number, or its text;
* `Node.dialect` — how a document writes settings.
-/

namespace Reckoner.Yaml

open Text (isDigit)

/-- A scalar: its text, and whether it was written without quotes. -/
structure Scalar where
  text : String
  plain : Bool

/-- A part of a document. -/
inductive Node where
  | scalar (s : Scalar)
  | list (items : List Node)
  | mapping (entries : List (Scalar × Node))

/-- The value that is not given. -/
def Node.empty : Node :=
  .scalar ⟨"", true⟩

/-! ## What scalars stand for -/

/-- What a scalar stands for. -/
inductive Meaning where
  | null
  | bool (value : Bool)
  | int (value : Int)
  | float (value : Float)
  | text

/-- The number that digits write in a base. -/
def natural? (base : Nat) (ds : List Char) : Option Nat :=
  ds.foldlM
    (fun n c => (Fraction.hexValue? c).bind fun d => if d < base then some (n * base + d) else none)
    0

/-- The number that digits write in the base they name. A zero before other digits names the base
eight. -/
def based? : List Char → Option Nat
  | [] => none
  | ['0'] => some 0
  | '0' :: c :: d :: rest =>
    if c == 'x' || c == 'X' then natural? 16 (d :: rest)
    else if c == 'o' || c == 'O' then natural? 8 (d :: rest)
    else if c == 'b' || c == 'B' then natural? 2 (d :: rest)
    else natural? 8 (c :: d :: rest)
  | '0' :: ds => natural? 8 ds
  | ds => natural? 10 ds

/-- A magnitude with its sign, within the range of words. -/
def signed? (negative : Bool) (n : Nat) : Option Int :=
  (Word.ofInt? (if negative then -(n : Int) else n)).map Int64.toInt

/-- Digits in a base with a sign before them or not, within the range of words. -/
def signedIn? (base : Nat) (cs : List Char) : Option Int :=
  let (negative, ds) := readSign cs
  if ds.isEmpty then none else (natural? base ds).bind (signed? negative)

/-- An integer: within the range of words, or, without a sign, within sixty-four bits. The marks of
the bases two and eight may stand before the sign. -/
def integer? (cs : List Char) : Option Int :=
  match cs with
  | '-' :: ds => (based? ds).bind (signed? true)
  | '+' :: ds => (based? ds).bind (signed? false)
  | ds =>
    match based? ds with
    | some n => if n < 0x10000000000000000 then some n else none
    | none =>
      match ds with
      | '0' :: 'b' :: rest => signedIn? 2 rest
      | '0' :: 'o' :: rest => signedIn? 8 rest
      | _ => none

/-- A fraction in decimal. -/
def fraction? (cs : List Char) : Option Float :=
  if cs.any isDigit
      && cs.all fun c => isDigit c || c == '+' || c == '-' || c == '.' || c == 'e' || c == 'E' then
    (readFloatChars cs).toOption
  else none

/-- A text that begins like a number. Underscores in it do not count. -/
def number (cs : List Char) : Meaning :=
  let ds := cs.filter (· != '_')
  match integer? ds with
  | some i => .int i
  | none =>
    match fraction? ds with
    | some x => .float x
    | none => .text

/-- What a plain text stands for, by its first character. -/
def plainMeaning (cs : List Char) : Meaning :=
  match cs with
  | [] => .null
  | c :: _ =>
    if c == '.' then
      match readFloatChars cs with
      | .ok x => .float x
      | .error _ => .text
    else if isDigit c || c == '+' || c == '-' then number cs
    else .text

/-- The plain texts with a meaning of their own. -/
def words : List (String × Meaning) :=
  [("~", .null), ("null", .null), ("Null", .null), ("NULL", .null),
    ("true", .bool true), ("True", .bool true), ("TRUE", .bool true),
    ("false", .bool false), ("False", .bool false), ("FALSE", .bool false),
    (".nan", .float Binary.nanValue), (".NaN", .float Binary.nanValue),
    (".NAN", .float Binary.nanValue),
    (".inf", .float Binary.infinity), (".Inf", .float Binary.infinity),
    (".INF", .float Binary.infinity),
    ("+.inf", .float Binary.infinity), ("+.Inf", .float Binary.infinity),
    ("+.INF", .float Binary.infinity),
    ("-.inf", .float (-Binary.infinity)), ("-.Inf", .float (-Binary.infinity)),
    ("-.INF", .float (-Binary.infinity))]

/-- What a scalar stands for. A quoted one is a text, whatever it looks like. -/
def Scalar.meaning (s : Scalar) : Meaning :=
  if s.plain then (words.lookup s.text).getD (plainMeaning s.text.toList) else .text

/-- The scalar stands for nothing. -/
def Scalar.isNull (s : Scalar) : Bool :=
  match s.meaning with
  | .null => true
  | _ => false

/-! ## Settings -/

namespace Node

/-- Some name is given twice. -/
def hasDuplicate : List (Scalar × Node) → Bool
  | [] => false
  | (key, _) :: rest => rest.any (fun entry => entry.1.text == key.text) || hasDuplicate rest

/-- The entries of a mapping. No name may be given twice, and other mappings are not merged into
this one. -/
def entries? : Node → Option (List (Scalar × Node))
  | .mapping entries =>
    if hasDuplicate entries || entries.any fun entry => entry.1.plain && entry.1.text == "<<" then
      none
    else some entries
  | _ => none

mutual

/-- No mapping in this part of a document gives a name twice or is to be merged with another. -/
def isUnique : Node → Bool
  | .scalar _ => true
  | .list items => allUnique items
  | .mapping entries => (entries? (.mapping entries)).isSome && entriesUnique entries

/-- No mapping in some parts of a document gives a name twice. -/
def allUnique : List Node → Bool
  | [] => true
  | node :: rest => node.isUnique && allUnique rest

/-- No mapping in the values of some entries gives a name twice. -/
def entriesUnique : List (Scalar × Node) → Bool
  | [] => true
  | (_, node) :: rest => node.isUnique && entriesUnique rest

end

/-- The named settings of a mapping; an entry whose name is nothing is passed over. -/
def fields? (node : Node) : Option (List (String × Node)) :=
  node.entries?.map fun entries =>
    (entries.filter fun entry => !entry.1.isNull).map fun entry => (entry.1.text, entry.2)

/-- A number cut off toward zero. Above the range of words there is no integer for it; below, the
least word stands for it. -/
def cutOff? (x : Float) : Option Int :=
  match Binary.ofFloat x with
  | .infinite true => some Int64.minValue.toInt
  | .finite .. =>
    if x ≤ 9223372036854775808.0 then
      some ((Word.ofInt? (Binary.truncate x)).getD Int64.minValue).toInt
    else none
  | _ => none

/-- An integer. Of a fraction only the whole part counts. -/
def int? : Node → Option Int
  | .scalar s =>
    match s.meaning with
    | .int i => (Word.ofInt? i).map Int64.toInt
    | .float x => cutOff? x
    | _ => none
  | _ => none

/-- A truth value, also by some words that are texts elsewhere. -/
def bool? : Node → Option Bool
  | .scalar s =>
    match s.meaning with
    | .bool b => some b
    | .text =>
      if ["y", "Y", "yes", "on"].contains s.text then some true
      else if ["n", "N", "no", "off"].contains s.text then some false
      else none
    | _ => none
  | _ => none

/-- How a document writes settings. Names are taken as they are, and any scalar is a text. -/
def dialect : Dialect Node :=
  { sameKey := (· == ·)
    isNull := fun
      | .scalar s => s.isNull
      | _ => false
    fields?
    string? := fun
      | .scalar s => some s.text
      | _ => none
    int?
    bool? }

end Node
end Reckoner.Yaml
