import Reckoner.Number.Reading
import Reckoner.Yaml.Basic

/-!
# Reading YAML scalars

A scalar is plain, or stands between single or double quotes. It may go over several lines: then a
single line break is read as a space, and of several the first does not count.

* `Gap` — what stands between two words of a scalar, and how it is read;
* `Plain.scan?` — a plain scalar, up to a colon or comment, or to a line that is not indented
  enough;
* `scanSingle?`, `scanDouble?` — what stands between quotes.

Main statements: each scanner gives back no more than it was given.
-/

namespace Reckoner.Yaml

/-- A character that ends a line. -/
def isBreak (c : Char) : Bool :=
  c == '\n' || c.toNat == 0x2028 || c.toNat == 0x2029

/-- A blank within a line. -/
def isSpace (c : Char) : Bool :=
  c == ' ' || c == '\t'

/-- No word goes on here: a blank or a line break follows, or nothing. -/
def endsWord : List Char → Bool
  | [] => true
  | c :: _ => isSpace c || isBreak c

/-- A line that begins or ends a document. -/
def isMarker : List Char → Bool
  | '-' :: '-' :: '-' :: rest => endsWord rest
  | '.' :: '.' :: '.' :: rest => endsWord rest
  | _ => false

/-! ## Gaps -/

/-- What stands between two words: blanks within a line, or the breaks of lines, the last first. The
first break may be escaped and then stands for nothing. -/
inductive Gap where
  | blanks (read : List Char)
  | breaks (first : Option Char) (more : List Char)

namespace Gap

/-- No gap. -/
def none : Gap := .blanks []

/-- Nothing stands there. -/
def isNone : Gap → Bool
  | blanks [] => true
  | _ => false

/-- The gap goes over the end of a line. -/
def isBreaking : Gap → Bool
  | blanks _ => false
  | breaks _ _ => true

/-- The gap with one more blank or break. Blanks around breaks do not count. -/
def add : Gap → Char → Gap
  | blanks read, c => if isBreak c then breaks (some c) [] else blanks (c :: read)
  | breaks first more, c => if isBreak c then breaks first (c :: more) else breaks first more

/-- How the gap is read, the last character first. -/
def reversed : Gap → List Char
  | blanks read => read
  | breaks (some '\n') [] => [' ']
  | breaks (some '\n') more => more
  | breaks first more => more ++ first.toList

end Gap

/-! ## Plain scalars -/

/-- A plain scalar that was read: its text, whether what follows is on another line, in which
column, and what it is. -/
structure Plain where
  text : List Char
  fresh : Bool
  column : Nat
  rest : List Char

namespace Plain

/-- Reads on in a plain scalar whose further lines stand at the column `indent` or after it. -/
def scanFrom? (indent : Nat) (read : List Char) (gap : Gap) (column : Nat) :
    List Char → Option Plain
  | [] => some ⟨read.reverse, gap.isBreaking, column, []⟩
  | c :: rest =>
    if isBreak c then scanFrom? indent read (gap.add c) 0 rest
    else if isSpace c then
      if gap.isBreaking && column < indent && c == '\t' then none
      else scanFrom? indent read (gap.add c) (column + 1) rest
    else if (gap.isBreaking && (column < indent || (column == 0 && isMarker (c :: rest))))
        || (!gap.isNone && c == '#') || (c == ':' && endsWord rest) then
      some ⟨read.reverse, gap.isBreaking, column, c :: rest⟩
    else scanFrom? indent (c :: (gap.reversed ++ read)) .none (column + 1) rest

/-- A plain scalar does not begin with one of these, which mean something else. -/
def isIndicator (c : Char) : Bool :=
  "-?:,[]\x7b\x7d#&*!|>'\"%@`".toList.contains c

/-- The text can be the beginning of a plain scalar. A dash, a question mark and a colon may begin
one when a word goes on after them. -/
def begins : List Char → Bool
  | [] => false
  | c :: rest =>
    if c == '-' || c == '?' || c == ':' then !endsWord rest
    else !isIndicator c && !isSpace c && !isBreak c

/-- A plain scalar at a column. -/
def scan? (indent column : Nat) : List Char → Option Plain
  | [] => none
  | c :: rest =>
    if begins (c :: rest) then scanFrom? indent [c] .none (column + 1) rest else none

theorem scanFrom?_rest_le {indent : Nat} {read : List Char} {gap : Gap} {column : Nat}
    {cs : List Char} {p : Plain} (h : scanFrom? indent read gap column cs = some p) :
    p.rest.length ≤ cs.length := by
  induction cs generalizing read gap column with
  | nil =>
    simp only [scanFrom?, Option.some.injEq] at h
    simp [← h]
  | cons c rest ih =>
    simp only [scanFrom?] at h
    split at h
    · exact Nat.le_succ_of_le (ih h)
    · split at h
      · split at h
        · contradiction
        · exact Nat.le_succ_of_le (ih h)
      · split at h
        · simp only [Option.some.injEq] at h
          simp [← h]
        · exact Nat.le_succ_of_le (ih h)

theorem scan?_rest_lt {indent column : Nat} {cs : List Char} {p : Plain}
    (h : scan? indent column cs = some p) : p.rest.length < cs.length := by
  cases cs with
  | nil => contradiction
  | cons c rest =>
    simp only [scan?] at h
    split at h
    · exact Nat.lt_succ_of_le (scanFrom?_rest_le h)
    · contradiction

end Plain

/-! ## Quoted scalars -/

/-- The rest of a scalar between single quotes, in which a quote is written twice. -/
def scanSingle? (read : List Char) (gap : Gap) : List Char → Option (List Char × List Char)
  | [] => none
  | '\'' :: '\'' :: rest => scanSingle? ('\'' :: (gap.reversed ++ read)) .none rest
  | c :: rest =>
    if isBreak c || isSpace c then scanSingle? read (gap.add c) rest
    else if c == '\'' then some ((gap.reversed ++ read).reverse, rest)
    else scanSingle? (c :: (gap.reversed ++ read)) .none rest

/-- Where the scanner stands between double quotes: in the text, after a backslash, or before digits
of a code, of which `left` are still to come. -/
inductive Mode where
  | text
  | escape
  | code (left : Nat) (n : Nat)

/-- How many digits follow the letter of an escape. -/
def codeLength? : Char → Option Nat
  | 'x' => some 2
  | 'u' => some 4
  | 'U' => some 8
  | _ => none

/-- What a letter after a backslash stands for. -/
def escapes : List (Char × Nat) :=
  [('0', 0), ('a', 7), ('b', 8), ('t', 9), ('\t', 9), ('n', 10), ('v', 11), ('f', 12), ('r', 13),
    ('e', 27), (' ', 32), ('"', 34), ('\'', 39), ('\\', 92), ('N', 0x85), ('_', 0xA0),
    ('L', 0x2028), ('P', 0x2029)]

/-- The character with a code. -/
def char? (n : Nat) : Option Char :=
  if n.isValidChar then some (Char.ofNat n) else none

/-- The rest of a scalar between double quotes. A line break after a backslash is left out. -/
def scanDouble? (mode : Mode) (read : List Char) (gap : Gap) :
    List Char → Option (List Char × List Char)
  | [] => none
  | c :: rest =>
    match mode with
    | .text =>
      if isBreak c || isSpace c then scanDouble? .text read (gap.add c) rest
      else if c == '"' then some ((gap.reversed ++ read).reverse, rest)
      else if c == '\\' then scanDouble? .escape (gap.reversed ++ read) .none rest
      else scanDouble? .text (c :: (gap.reversed ++ read)) .none rest
    | .escape =>
      if isBreak c then scanDouble? .text read (.breaks none []) rest
      else
        match codeLength? c, escapes.lookup c with
        | some left, _ => scanDouble? (.code left 0) read .none rest
        | none, some n => scanDouble? .text (Char.ofNat n :: read) .none rest
        | none, none => none
    | .code left n =>
      match Fraction.hexValue? c with
      | none => none
      | some d =>
        if 1 < left then scanDouble? (.code (left - 1) (n * 16 + d)) read .none rest
        else
          match char? (n * 16 + d) with
          | none => none
          | some e => scanDouble? .text (e :: read) .none rest

theorem scanSingle?_rest_lt {read : List Char} {gap : Gap} {cs : List Char}
    {r : List Char × List Char} (h : scanSingle? read gap cs = some r) :
    r.2.length < cs.length := by
  fun_induction scanSingle? read gap cs with
  | case1 => contradiction
  | case2 _ _ _ ih => exact Nat.lt_succ_of_lt (Nat.lt_succ_of_lt (ih h))
  | case3 _ _ _ _ _ _ ih => exact Nat.lt_succ_of_lt (ih h)
  | case4 =>
    simp only [Option.some.injEq] at h
    simp [← h]
  | case5 _ _ _ _ _ _ _ ih => exact Nat.lt_succ_of_lt (ih h)

theorem scanDouble?_rest_lt {mode : Mode} {read : List Char} {gap : Gap} {cs : List Char}
    {r : List Char × List Char} (h : scanDouble? mode read gap cs = some r) :
    r.2.length < cs.length := by
  induction cs generalizing mode read gap with
  | nil => contradiction
  | cons c rest ih =>
    have next {mode read gap} (h : scanDouble? mode read gap rest = some r) :
        r.2.length < (c :: rest).length := Nat.lt_succ_of_lt (ih h)
    simp only [scanDouble?] at h
    repeat' split at h
    all_goals first
      | contradiction
      | exact next h
      | simp only [Option.some.injEq] at h; simp [← h]

end Reckoner.Yaml
