import Reckoner.Number.Decimal

/-!
# Positions in a source

Lines and columns count from one; columns count characters. A position whose line is not positive
is no place in a source.
-/

namespace Reckoner

open Decimal (intText)

/-- A line and a column. -/
structure Position where
  line : Int
  column : Int
  deriving DecidableEq

namespace Position

/-- The place of the first character of a source. -/
def start : Position := ⟨1, 1⟩

/-- No place in a source. -/
def nowhere : Position := ⟨0, 0⟩

/-- The position is a place in a source. -/
def isKnown (p : Position) : Bool :=
  0 < p.line

/-- The place of the character after `c`, which stands at `p`. -/
def next (p : Position) (c : Char) : Position :=
  if c = '\n' then ⟨p.line + 1, 1⟩ else ⟨p.line, p.column + 1⟩

/-- The place of the character after a text that begins at `p`. -/
def past (p : Position) (text : List Char) : Position :=
  text.foldl next p

/-- A position in words. -/
def describe (p : Position) : String :=
  "line " ++ intText p.line ++ ", column " ++ intText p.column

/-- A position in short. -/
def short (p : Position) : String :=
  intText p.line ++ ":" ++ intText p.column

end Position
end Reckoner
