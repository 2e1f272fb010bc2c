import Reckoner.Fault
import Reckoner.Text.Blank
import Reckoner.Text.LowerCase

/-!
# Scanning a source into tokens

A source is a list of characters. At its head stands a piece: a blank, a lexeme, the opening of a
string that is never closed, or a character at which scanning fails. Each lexeme is as long as its
class allows, and the source is its pieces one after another.

* `Piece`, `Cut` — what stands at the head of a source, with the characters it takes;
* `cut` — finds it;
* `Token.scan` — the tokens of a source, closed by an end-of-input token.
-/

namespace Reckoner

open Text

/-- What stands at the head of a source. -/
inductive Piece where
  | blank
  | lexeme (kind : Kind) (literal : String)
  /-- A string without an end: it takes the rest of the source and gives no token. -/
  | openString
  /-- Scanning fails here. -/
  | bad (cause : Cause)

/-- The piece at the head of a source, the characters it takes, and those after it. -/
structure Cut where
  piece : Piece
  taken : List Char
  rest : List Char

/-! ## The classes of lexemes -/

/-- A number: digits, and if a point follows, the point and the digits after it. -/
def cutNumber (c : Char) (cs : List Char) : Cut :=
  let whole := c :: cs.takeWhile isDigit
  match cs.dropWhile isDigit with
  | '.' :: more =>
    let taken := whole ++ '.' :: more.takeWhile isDigit
    ⟨.lexeme .float (String.ofList taken), taken, more.dropWhile isDigit⟩
  | rest => ⟨.lexeme .int (String.ofList whole), whole, rest⟩

/-- A word, in lower case. -/
def cutWord (c : Char) (cs : List Char) : Cut :=
  let taken := c :: cs.takeWhile isWordPart
  let word := String.ofList (taken.map lowerChar)
  ⟨.lexeme (wordKind word) word, taken, cs.dropWhile isWordPart⟩

/-- A string up to the next quote; nothing is escaped. -/
def cutString (cs : List Char) : Cut :=
  let body := cs.takeWhile (· != '"')
  match cs.dropWhile (· != '"') with
  | [] => ⟨.openString, '"' :: cs, []⟩
  | quote :: rest => ⟨.lexeme .string (String.ofList body), '"' :: body ++ [quote], rest⟩

/-- An operator of one character, or of two when an equals sign follows. -/
def cutComparison (c : Char) (single double : Kind) : List Char → Cut
  | '=' :: rest => ⟨.lexeme double (String.ofList [c, '=']), [c, '='], rest⟩
  | rest => ⟨.lexeme single (String.ofList [c]), [c], rest⟩

/-- Punctuation and operators of one character. -/
def symbolKind? : Char → Option Kind
  | '+' => some .plus
  | '-' => some .minus
  | '*' => some .mul
  | '/' => some .div
  | '^' => some .pow
  | '%' => some .mod
  | '(' => some .openParen
  | ')' => some .closeParen
  | '\x7b' => some .openBrace
  | '\x7d' => some .closeBrace
  | ',' => some .comma
  | ';' => some .semicolon
  | ':' => some .colon
  | _ => none

/-- Anything that is neither blank nor a number nor a word. -/
def cutSymbol (c : Char) (cs : List Char) : Cut :=
  match c with
  | '!' =>
    match cs with
    | '=' :: rest => ⟨.lexeme .notEqual "!=", ['!', '='], rest⟩
    | rest => ⟨.bad .loneBang, ['!'], rest⟩
  | '=' => cutComparison '=' .assign .equal cs
  | '<' => cutComparison '<' .less .lessEqual cs
  | '>' => cutComparison '>' .greater .greaterEqual cs
  | '"' => cutString cs
  | c =>
    match symbolKind? c with
    | some kind => ⟨.lexeme kind (String.ofList [c]), [c], cs⟩
    | none => ⟨.bad (.strayCharacter c), [c], cs⟩

/-- The piece at the head of the source `c :: cs`. -/
def cut (c : Char) (cs : List Char) : Cut :=
  if isBlank c then ⟨.blank, [c], cs⟩
  else if isDigit c then cutNumber c cs
  else if isWordStart c then cutWord c cs
  else cutSymbol c cs

/-! ## Nothing is lost -/

theorem cutNumber_taken_append (c : Char) (cs : List Char) :
    (cutNumber c cs).taken ++ (cutNumber c cs).rest = c :: cs := by
  unfold cutNumber
  have whole := List.takeWhile_append_dropWhile (p := isDigit) (l := cs)
  split
  · next more h =>
    rw [h] at whole
    simp [List.takeWhile_append_dropWhile, whole]
  · simp [whole]

theorem cutWord_taken_append (c : Char) (cs : List Char) :
    (cutWord c cs).taken ++ (cutWord c cs).rest = c :: cs := by
  simp [cutWord, List.takeWhile_append_dropWhile]

theorem cutString_taken_append (cs : List Char) :
    (cutString cs).taken ++ (cutString cs).rest = '"' :: cs := by
  unfold cutString
  have body := List.takeWhile_append_dropWhile (p := (· != '"')) (l := cs)
  split
  · simp
  · next quote rest h =>
    rw [h] at body
    simp [body]

theorem cutComparison_taken_append (c : Char) (single double : Kind) (cs : List Char) :
    (cutComparison c single double cs).taken ++ (cutComparison c single double cs).rest
      = c :: cs := by
  unfold cutComparison
  split <;> rfl

theorem cutSymbol_taken_append (c : Char) (cs : List Char) :
    (cutSymbol c cs).taken ++ (cutSymbol c cs).rest = c :: cs := by
  unfold cutSymbol
  split
  · split <;> rfl
  · exact cutComparison_taken_append ..
  · exact cutComparison_taken_append ..
  · exact cutComparison_taken_append ..
  · exact cutString_taken_append cs
  · split <;> rfl

/-- The characters taken and the rest are the source. -/
theorem cut_taken_append (c : Char) (cs : List Char) :
    (cut c cs).taken ++ (cut c cs).rest = c :: cs := by
  unfold cut
  split
  · rfl
  · split
    · exact cutNumber_taken_append c cs
    · split
      · exact cutWord_taken_append c cs
      · exact cutSymbol_taken_append c cs

/-- Something is taken. -/
theorem cut_taken_ne_nil (c : Char) (cs : List Char) : (cut c cs).taken ≠ [] := by
  unfold cut cutNumber cutWord cutSymbol cutComparison cutString
  repeat' split
  all_goals simp

/-- Scanning goes on with a shorter source. -/
theorem cut_rest_lt (c : Char) (cs : List Char) :
    (cut c cs).rest.length < (c :: cs).length := by
  have whole := congrArg List.length (cut_taken_append c cs)
  have some := List.length_pos_iff.mpr (cut_taken_ne_nil c cs)
  rw [List.length_append] at whole
  omega

/-! ## The scan -/

namespace Token

/-- The tokens of what is left of a source, of which the next character stands at `p`, after those
read so far, the last first. -/
def scanFrom (p : Position) (read : List Token) : List Char → Except Fault (List Token)
  | [] => .ok ((⟨.eof, "", p⟩ :: read).reverse)
  | c :: cs =>
    let here := cut c cs
    have : here.rest.length < (c :: cs).length := cut_rest_lt c cs
    match here.piece with
    | .lexeme kind literal =>
      scanFrom (p.past here.taken) (⟨kind, literal, p.past here.taken.dropLast⟩ :: read) here.rest
    | .bad cause => .error ⟨cause, p⟩
    | .blank => scanFrom (p.past here.taken) read here.rest
    | .openString => scanFrom (p.past here.taken) read here.rest
termination_by cs => cs.length
decreasing_by all_goals exact cut_rest_lt c cs

/-- The tokens of a source, closed by exactly one end-of-input token. -/
def scan (source : List Char) : Except Fault (List Token) :=
  scanFrom .start [] source

end Token
end Reckoner
