import Reckoner.Json.Reader
import Reckoner.Yaml.Scalar

/-!
# Reading YAML

The part of YAML that configurations use: mappings of any depth, one key on a line, with scalars as
values. A list, or a mapping within a line, is read when it has the form of JSON; sequences of
dashes, anchors, tags and block scalars are refused.

The reader goes from line to line and keeps the mappings that are still open, each with the column
of its keys: a line further to the left closes those to its right.

* `Place`, `skip` — what comes next, past blanks and comments;
* `value?` — a scalar, or a collection within a line;
* `Frame` — a mapping that is still open;
* `blocks?` — all that follows the beginning of a line;
* `Yaml.read?` — the document of a text.
-/

namespace Reckoner.Yaml

/-! ## Characters -/

/-- A character that may stand in a document. -/
def isAllowed (c : Char) : Bool :=
  let n := c.toNat
  n == 9 || n == 10 || n == 13 || (32 ≤ n && n ≤ 126) || n == 0x85 || (0xA0 ≤ n && n ≤ 0xFFFD)
    || 0x10000 ≤ n

/-- All ways to end a line as one, the two separators of Unicode apart. -/
def unifyBreaks : List Char → List Char
  | [] => []
  | '\r' :: '\n' :: rest => '\n' :: unifyBreaks rest
  | c :: rest => (if c == '\r' || c.toNat == 0x85 then '\n' else c) :: unifyBreaks rest

/-- A text without a byte order mark at its beginning. -/
def dropMark : List Char → List Char
  | [] => []
  | c :: rest => if c.toNat == 0xFEFF then rest else c :: rest

/-! ## Places -/

/-- What comes next: whether it begins a line, its column, and the text from there. -/
structure Place where
  fresh : Bool
  column : Nat
  rest : List Char

/-- What is passed over: blanks, among them tabs or not; a comment; or all up to the next comment.
-/
inductive Skipping where
  | blanks (tabs : Bool)
  | comment
  | upToComment

/-- A comment follows, perhaps after blanks and line breaks. -/
def commentFollows (cs : List Char) : Bool :=
  (cs.dropWhile fun c => isSpace c || isBreak c).head? == some '#'

/-- The next place, past blanks and comments. A tab cannot indent a line, except between comments
that have lines of their own. -/
def skip (mode : Skipping) (fresh : Bool) (column : Nat) : List Char → Place
  | [] => ⟨fresh, column, []⟩
  | c :: rest =>
    match mode with
    | .blanks tabs =>
      if c == '#' then skip .comment fresh (column + 1) rest
      else if isBreak c then skip (.blanks false) true 0 rest
      else if c == ' ' || (tabs && c == '\t') then skip (.blanks tabs) fresh (column + 1) rest
      else ⟨fresh, column, c :: rest⟩
    | .comment =>
      if isBreak c then
        skip (if fresh && commentFollows rest then .upToComment else .blanks false) true 0 rest
      else skip .comment fresh (column + 1) rest
    | .upToComment =>
      if c == '#' then skip .comment fresh (column + 1) rest
      else skip .upToComment fresh (column + 1) rest

theorem skip_rest_le (mode : Skipping) (fresh : Bool) (column : Nat) (cs : List Char) :
    (skip mode fresh column cs).rest.length ≤ cs.length := by
  induction cs generalizing mode fresh column with
  | nil => simp [skip]
  | cons c rest ih =>
    simp only [skip]
    repeat' split
    all_goals first
      | exact Nat.le_succ_of_le (ih ..)
      | exact Nat.le_refl _

/-! ## Values -/

mutual

/-- A collection in the form of JSON. -/
def Node.ofJson : Json → Node
  | .null => .empty
  | .bool b => .scalar ⟨if b then "true" else "false", true⟩
  | .number literal => .scalar ⟨literal, true⟩
  | .string s => .scalar ⟨s, false⟩
  | .array items => .list (Node.ofItems items)
  | .object fields => .mapping (Node.ofFields fields)

/-- The elements of a list. -/
def Node.ofItems : List Json → List Node
  | [] => []
  | j :: rest => Node.ofJson j :: Node.ofItems rest

/-- The entries of a mapping. -/
def Node.ofFields : List (String × Json) → List (Scalar × Node)
  | [] => []
  | (name, j) :: rest => (⟨name, false⟩, Node.ofJson j) :: Node.ofFields rest

end

/-- Something that was read, and the place after it. -/
structure Found (α : Type) where
  value : α
  after : Place

/-- Nothing more stands on the line. -/
def Place.endsLine (p : Place) : Bool :=
  p.fresh || p.rest.isEmpty

/-- Some line after the first looks like the beginning or the end of a document. -/
def hasMarker : List Char → Bool
  | [] => false
  | c :: rest => (isBreak c && isMarker rest) || hasMarker rest

/-- What stands in a text before its rest. -/
def before (cs rest : List Char) : List Char :=
  cs.take (cs.length - rest.length)

/-- A scalar between quotes, of which the text and what follows it were read. -/
def ofQuoted? (cs : List Char) (read : List Char × List Char) : Option (Found Scalar) :=
  if hasMarker (before cs read.2) then none
  else some ⟨⟨String.ofList read.1, false⟩, skip (.blanks true) false 1 read.2⟩

/-- A plain scalar that was read. -/
def ofPlain (p : Plain) : Found Scalar :=
  ⟨⟨String.ofList p.text, true⟩, skip (.blanks !p.fresh) p.fresh p.column p.rest⟩

/-- A scalar at a column. -/
def scalar? (indent column : Nat) : List Char → Option (Found Scalar)
  | '"' :: rest => (scanDouble? .text [] .none rest).bind (ofQuoted? rest)
  | '\'' :: rest => (scanSingle? [] .none rest).bind (ofQuoted? rest)
  | cs => (Plain.scan? indent column cs).map ofPlain

/-- A collection that takes the rest of a line. -/
def collection? (cs : List Char) : Option (Found Node) :=
  (Json.read? (cs.takeWhile fun c => !isBreak c)).map fun j =>
    ⟨.ofJson j, skip (.blanks true) false 1 (cs.dropWhile fun c => !isBreak c)⟩

/-- A value at a column. -/
def value? (indent column : Nat) : List Char → Option (Found Node)
  | [] => none
  | c :: rest =>
    if c == '[' || c == '\x7b' then collection? (c :: rest)
    else (scalar? indent column (c :: rest)).map fun found => ⟨.scalar found.value, found.after⟩

theorem scalar?_rest_lt {indent column : Nat} {cs : List Char} {found : Found Scalar}
    (h : scalar? indent column cs = some found) : found.after.rest.length < cs.length := by
  have quoted {rest : List Char} {read : List Char × List Char}
      (lt : read.2.length < rest.length) (h : ofQuoted? rest read = some found) :
      found.after.rest.length < rest.length := by
    simp only [ofQuoted?] at h
    split at h
    · contradiction
    · simp only [Option.some.injEq] at h
      subst h
      exact Nat.lt_of_le_of_lt (skip_rest_le ..) lt
  unfold scalar? at h
  split at h
  · obtain ⟨read, scanned, h⟩ := Option.bind_eq_some_iff.1 h
    exact Nat.lt_succ_of_lt (quoted (scanDouble?_rest_lt scanned) h)
  · obtain ⟨read, scanned, h⟩ := Option.bind_eq_some_iff.1 h
    exact Nat.lt_succ_of_lt (quoted (scanSingle?_rest_lt scanned) h)
  · obtain ⟨p, scanned, rfl⟩ := Option.map_eq_some_iff.1 h
    exact Nat.lt_of_le_of_lt (skip_rest_le ..) (Plain.scan?_rest_lt scanned)

theorem value?_rest_lt {indent column : Nat} {cs : List Char} {found : Found Node}
    (h : value? indent column cs = some found) : found.after.rest.length < cs.length := by
  cases cs with
  | nil => contradiction
  | cons c rest =>
    simp only [value?] at h
    split at h
    · rename_i opens
      have shorter : ((c :: rest).dropWhile fun c => !isBreak c).length ≤ rest.length := by
        have goesOn : isBreak c = false := by
          simp only [Bool.or_eq_true, beq_iff_eq] at opens
          rcases opens with rfl | rfl <;> rfl
        simp only [List.dropWhile_cons, goesOn, Bool.not_false, ite_true]
        exact (List.dropWhile_suffix _).length_le
      obtain ⟨j, _, rfl⟩ := Option.map_eq_some_iff.1 h
      exact Nat.lt_succ_of_le (Nat.le_trans (skip_rest_le ..) shorter)
    · obtain ⟨found, scanned, rfl⟩ := Option.map_eq_some_iff.1 h
      exact scalar?_rest_lt scanned

/-! ## Mappings -/

/-- A mapping that is still open: the column of its keys, its entries, the last first, and a key
that has no value yet. -/
structure Frame where
  column : Nat
  entries : List (Scalar × Node) := []
  key : Option Scalar := none

namespace Frame

/-- The mapping with a value for the key that has none. -/
def give (f : Frame) (node : Node) : Frame :=
  match f.key with
  | some key => { f with entries := (key, node) :: f.entries, key := none }
  | none => f

/-- The whole mapping. -/
def close (f : Frame) : Node :=
  .mapping (f.give .empty).entries.reverse

/-- The open mappings at a line in this column: those further to the right are closed, the outermost
apart. -/
def unwind (column : Nat) : List Frame → List Frame
  | inner :: outer :: rest =>
    if column < inner.column then unwind column (outer.give inner.close :: rest)
    else inner :: outer :: rest
  | frames => frames
termination_by frames => frames.length

/-- The document of the open mappings. -/
def finish : List Frame → Node
  | [] => .empty
  | f :: rest => (rest.foldl (fun inner outer => outer.give inner.close) f).close

/-- The open mappings with a key more, which begins a line in this column. To the right of the
innermost mapping it begins another one, as the value of a key that has none. -/
def enter? (column : Nat) (key : Scalar) : List Frame → Option (List Frame)
  | [] => some [{ column, key }]
  | f :: rest =>
    if column = f.column then some ({ f.give .empty with key } :: rest)
    else if f.column < column && f.key.isSome then some ({ column, key } :: f :: rest)
    else none

/-- The least column of a further line of a plain scalar. -/
def indent : List Frame → Nat
  | [] => 0
  | f :: _ => f.column + 1

end Frame

/-- How many characters a key may take. -/
def keyLimit : Nat := 1024

/-- The scalar that was read as a key, and the text after its colon, which stands on the same line.
-/
def key? (cs : List Char) (found : Found Node) : Option (Scalar × List Char) :=
  match found.value, found.after.rest with
  | .scalar s, ':' :: rest =>
    let read := before cs found.after.rest
    if endsWord rest && !read.any isBreak && read.length ≤ keyLimit then some (s, rest) else none
  | _, _ => none

/-- The value that follows on the same line, if there is one, and the place after it. -/
def inline? (indent : Nat) (cs : List Char) : Option (Option Node × Place) :=
  let place := skip (.blanks true) false 1 cs
  if place.endsLine then some (none, place)
  else
    match value? indent 1 place.rest with
    | none => none
    | some found => if found.after.endsLine then some (some found.value, found.after) else none

theorem key?_rest_lt {cs : List Char} {found : Found Node} {s : Scalar} {rest : List Char}
    (h : key? cs found = some (s, rest)) : rest.length < found.after.rest.length := by
  unfold key? at h
  split at h
  · rename_i rest' _ colon
    simp only at h
    split at h
    · simp only [Option.some.injEq, Prod.mk.injEq] at h
      simp [colon, ← h.2]
    · contradiction
  · contradiction

theorem inline?_rest_le {indent : Nat} {cs : List Char} {node : Option Node} {place : Place}
    (h : inline? indent cs = some (node, place)) : place.rest.length ≤ cs.length := by
  have skipped := skip_rest_le (.blanks true) false 1 cs
  simp only [inline?] at h
  split at h
  · simp only [Option.some.injEq, Prod.mk.injEq] at h
    exact h.2 ▸ skipped
  · split at h
    · contradiction
    · rename_i found scanned
      split at h
      · simp only [Option.some.injEq, Prod.mk.injEq] at h
        exact h.2 ▸ Nat.le_trans (Nat.le_of_lt (value?_rest_lt scanned)) skipped
      · contradiction

/-- The document ends here. -/
def Place.endsDocument (p : Place) : Bool :=
  p.rest.isEmpty || (p.column == 0 && isMarker p.rest)

/-- Reads on at the beginning of a line, with these mappings open. -/
def blocks? (opened : List Frame) (p : Place) : Option Node :=
  if p.endsDocument then some (Frame.finish opened)
  else
    let frames := Frame.unwind p.column opened
    match _scanned : value? (Frame.indent frames) p.column p.rest with
    | none => none
    | some found =>
      match _keyed : key? p.rest found with
      | some (key, rest) =>
        match Frame.enter? p.column key frames, _given : inline? (p.column + 1) rest with
        | some frames, some (none, after) => blocks? frames after
        | some (f :: frames), some (some node, after) => blocks? (f.give node :: frames) after
        | _, _ => none
      | none =>
        match frames with
        | [] => if found.after.endsDocument then some found.value else none
        | f :: frames =>
          if f.column < p.column && f.key.isSome && found.after.endsLine then
            blocks? (f.give found.value :: frames) found.after
          else none
termination_by p.rest.length
decreasing_by
  all_goals
    have first := value?_rest_lt _scanned
    first
      | exact first
      | exact Nat.lt_of_le_of_lt (inline?_rest_le _given)
          (Nat.lt_trans (key?_rest_lt _keyed) first)

/-- The document of a text; an empty text says nothing. -/
def read? (cs : List Char) : Option Node :=
  if cs.all isAllowed then
    let p := skip (.blanks false) true 0 (unifyBreaks (dropMark cs))
    match p.rest with
    | '-' :: '-' :: '-' :: rest =>
      if p.column == 0 && endsWord rest then
        match inline? 0 rest with
        | some (none, after) => blocks? [] after
        | some (some node, after) => if after.endsDocument then some node else none
        | none => none
      else blocks? [] p
    | '.' :: '.' :: '.' :: rest => if p.column == 0 && endsWord rest then none else blocks? [] p
    | _ => blocks? [] p
  else none

end Reckoner.Yaml
