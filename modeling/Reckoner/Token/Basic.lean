import Reckoner.Number.Basic
import Reckoner.Position
import Reckoner.Text.Quoted

/-!
# Tokens

* `Kind` — what sort of lexeme a token stands for;
* `Token` — a kind, a literal and the position of the lexeme's last character;
* `wordKind` — the kind of a word, by the table of keywords.
-/

namespace Reckoner

open Text (quoted)

/-- The kinds of tokens. A token made by other hands may have a kind that the language gives no
meaning to. -/
inductive Kind where
  | eof
  | int
  | float
  | string
  | identifier
  | keyword
  | plus
  | minus
  | mul
  | div
  | pow
  | mod
  | assign
  | equal
  | notEqual
  | greater
  | greaterEqual
  | less
  | lessEqual
  | openParen
  | closeParen
  | openBrace
  | closeBrace
  | comma
  | semicolon
  | colon
  | other (name : String)
  deriving DecidableEq

namespace Kind

/-- The name under which a kind is shown. -/
def name : Kind → String
  | eof => "EOF"
  | int => "INT"
  | float => "FLOAT"
  | string => "STRING"
  | identifier => "IDENTIFIER"
  | keyword => "KEYWORD"
  | plus => "PLUS"
  | minus => "MINUS"
  | mul => "MUL"
  | div => "DIV"
  | pow => "POW"
  | mod => "MOD"
  | assign => "EQ"
  | equal => "=="
  | notEqual => "!="
  | greater => ">"
  | greaterEqual => ">="
  | less => "<"
  | lessEqual => "<="
  | openParen => "LPAREN"
  | closeParen => "RPAREN"
  | openBrace => "LBRACE"
  | closeBrace => "RBRACE"
  | comma => "COMMA"
  | semicolon => "SEMICOLON"
  | colon => "COLON"
  | other name => name

/-- The kinds that the language gives a meaning to. -/
def all : List Kind :=
  [eof, int, float, string, identifier, keyword, plus, minus, mul, div, pow, mod, assign, equal,
    notEqual, greater, greaterEqual, less, lessEqual, openParen, closeParen, openBrace, closeBrace,
    comma, semicolon, colon]

/-- The kind shown under a name. -/
def ofName (s : String) : Kind :=
  (all.find? (·.name == s)).getD (other s)

end Kind

/-- The words that are no identifiers. Some are reserved and appear in no program. -/
def keywords : List String :=
  ["var", "exit", "div", "mod", "and", "or", "not", "xor", "if", "then", "else", "elif", "endif",
    "end", "for", "while", "endwhile", "switch", "case", "default", "endswitch", "break",
    "continue"]

/-- The kind of a word in lower case: two keywords are operators. -/
def wordKind (word : String) : Kind :=
  if word == "div" then .div
  else if word == "mod" then .mod
  else if keywords.contains word then .keyword
  else .identifier

/-- A lexical unit. -/
structure Token where
  kind : Kind
  literal : String
  /-- The position of the last character of the lexeme. -/
  pos : Position
  deriving DecidableEq

namespace Token

/-- The token has this kind and this literal. -/
def is (t : Token) (kind : Kind) (literal : String) : Bool :=
  t.kind == kind && t.literal == literal

/-- The token is this keyword. -/
def isKeyword (t : Token) (word : String) : Bool :=
  t.is .keyword word

/-- The literal read as an integer. -/
def int (t : Token) : Except ReadError Int64 :=
  readInt t.literal

/-- The literal read as a binary number. -/
def float (t : Token) : Except ReadError Float :=
  readFloat t.literal

/-- How a token is shown in messages and listings. -/
def text (t : Token) : String :=
  match t.kind with
  | .eof => "EOF"
  | .string => t.kind.name ++ ":" ++ quoted t.literal
  | kind => kind.name ++ ":" ++ t.literal

end Token
end Reckoner
