/-!
# Blank characters

`isBlank` holds of the white space characters of Unicode: the five ASCII control blanks, the space,
U+0085, U+00A0 and the space separators beyond them.
-/

namespace Reckoner.Text

/-- White space: separates lexemes, and is trimmed from lines and documents. -/
def isBlank (c : Char) : Bool :=
  let n := c.toNat
  (9 ≤ n && n ≤ 13) || n == 32 || n == 0x85 || n == 0xA0 || n == 0x1680
    || (0x2000 ≤ n && n ≤ 0x200A) || n == 0x2028 || n == 0x2029 || n == 0x202F
    || n == 0x205F || n == 0x3000

/-- Nothing but blanks. -/
def allBlank (s : String) : Bool :=
  s.toList.all isBlank

end Reckoner.Text
