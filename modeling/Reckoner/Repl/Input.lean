import Reckoner.Files
import Reckoner.Text.Lines
import Reckoner.Text.Utf8

/-!
# Lines of interactive input

Input is read line by line. A newline ends a line, and so does the end of the input when something
stands before it; a carriage return at the end of a line is dropped. Reading ends for good at a line
that is too long.

* `Input` — the lines up to the end of the input or to a line that is too long;
* `Input.ofBytes` — the lines of bytes.
-/

namespace Reckoner.Repl

/-- The newline. -/
def newline : UInt8 := 0x0A

/-- The number of bytes that makes a line too long. -/
def lineLimit : Nat := 65536

/-- The lines that can be read. -/
structure Input where
  lines : List (List Char)
  /-- A line that is too long comes after them. -/
  overlong : Bool := false

/-- The characters of a line, from its bytes in reverse. -/
def lineOfBytes (reversed : List UInt8) : List Char :=
  Text.dropReturn (Text.decodeBytes reversed.reverse)

/-- The lines of bytes, after `read`, the first `size` bytes of the first line in reverse. -/
def Input.readFrom (read : List UInt8) (size : Nat) : List UInt8 → Input
  | [] => if read.isEmpty then ⟨[], false⟩ else ⟨[lineOfBytes read], false⟩
  | b :: rest =>
    if b = newline then
      let later := readFrom [] 0 rest
      ⟨lineOfBytes read :: later.lines, later.overlong⟩
    else if lineLimit ≤ size + 1 then ⟨[], true⟩
    else readFrom (b :: read) (size + 1) rest

/-- The lines of bytes. -/
def Input.ofBytes (bytes : Content) : Input :=
  readFrom [] 0 bytes

end Reckoner.Repl
