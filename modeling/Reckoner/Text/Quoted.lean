import Reckoner.Text.Printable

/-!
# Quoted text

A text between double quotes, on one line and unambiguous: quotes and backslashes are escaped, the
seven control characters with a letter of their own take it, other ASCII controls are written in
two hexadecimal digits, and characters that are not printable in four or eight.

* `hex` — a number in lower-case hexadecimal digits of a given width;
* `quoted` — the quoted form of a text;
* `quotedBytes` — the quoted form in which controls and every byte beyond ASCII are escaped.
-/

namespace Reckoner.Text

/-- The hexadecimal digit of a value below sixteen. -/
def hexDigit (n : Nat) : Char :=
  if n < 10 then Char.ofNat (48 + n) else Char.ofNat (87 + n)

/-- The last `width` hexadecimal digits of a number. -/
def hex : (width : Nat) → Nat → List Char
  | 0, _ => []
  | width + 1, n => hex width (n / 16) ++ [hexDigit (n % 16)]

/-- How one character stands inside a quoted text. -/
def quotedChar (c : Char) : List Char :=
  match c with
  | '"' => ['\\', '"']
  | '\\' => ['\\', '\\']
  | '\n' => ['\\', 'n']
  | '\r' => ['\\', 'r']
  | '\t' => ['\\', 't']
  | c =>
    match c.toNat with
    | 7 => ['\\', 'a']
    | 8 => ['\\', 'b']
    | 11 => ['\\', 'v']
    | 12 => ['\\', 'f']
    | n =>
      if isPrintable c then [c]
      else if n < 128 then '\\' :: 'x' :: hex 2 n
      else if n < 0x10000 then '\\' :: 'u' :: hex 4 n
      else '\\' :: 'U' :: hex 8 n

/-- A text between double quotes. -/
def quoted (s : String) : String :=
  String.ofList ('"' :: s.toList.flatMap quotedChar ++ ['"'])

/-- How one character stands inside a text quoted byte by byte. -/
def quotedByteChar (c : Char) : List Char :=
  if c == '"' || c == '\\' then ['\\', c]
  else if 32 ≤ c.toNat && c.toNat < 128 then [c]
  else (String.singleton c).toUTF8.toList.flatMap fun b => '\\' :: 'x' :: hex 2 b.toNat

/-- A text between double quotes, with controls and every byte beyond ASCII escaped. -/
def quotedBytes (s : String) : String :=
  String.ofList ('"' :: s.toList.flatMap quotedByteChar ++ ['"'])

end Reckoner.Text
