/-!
# Text inside markup

`escapeMarkup` replaces the five characters that markup gives a meaning to, so that a text taken
from a request stands as it is in a page.
-/

namespace Reckoner.Text

/-- How one character stands inside markup. -/
def markupChar (c : Char) : List Char :=
  match c.toNat with
  | 0x22 => "&#34;".toList
  | 0x26 => "&amp;".toList
  | 0x27 => "&#39;".toList
  | 0x3C => "&lt;".toList
  | 0x3E => "&gt;".toList
  | _ => [c]

/-- A text as it stands inside markup. -/
def escapeMarkup (s : String) : String :=
  String.ofList (s.toList.flatMap markupChar)

end Reckoner.Text
