import Reckoner.Proofs.Joining
import Reckoner.Proofs.LexicalFaults
import Reckoner.Proofs.Utf8

/-!
# Tokens of sources one below the other

A newline ends whatever a scan is at, strings apart. So where the first of two sources leaves no
string open, the second is scanned below it as it is scanned alone: it has the same tokens or the
same fault, further down by the newlines in front of it.

* `Position.afterText_newline` — places below a text;
* `StopsAt.newline` — the scan of both sources stops where that of the second does;
* `Token.scan_newline`, `Token.scan_newline_of_error` — both sources without a fault, and with one;
* `Token.scan_below` — a source below another one.
-/

namespace Reckoner

open Text

/-! ## Places below a text -/

/-- What stands below a text is further down by its newlines and the one behind it. -/
theorem Position.afterText_newline (a text : List Char) :
    Position.afterText (a ++ '\n' :: text) =
      (Position.afterText text).down (a.count '\n' + 1) := by
  calc
    Position.afterText (a ++ '\n' :: text)
        = ((Position.start.past a).past ['\n']).past text := by
          rw [← Position.start_past, Position.past_append]
          rfl
    _ = (Position.start.down (a.count '\n' + 1)).past text := by
          rw [Position.start_past_newline]
    _ = (Position.afterText text).down (a.count '\n' + 1) := by
          rw [Position.past_down, Position.start_past]

/-! ## Scans of both sources -/

/-- The scan of both sources stops where that of the second does. -/
theorem StopsAt.newline {a b before after : List Char} {c : Char} {as : List Segment}
    (ha : Splits a as []) (hquotes : Even (a.count '"')) (hb : StopsAt b before c after) :
    StopsAt (a ++ '\n' :: b) (a ++ '\n' :: before) c after := by
  obtain ⟨bs, hsplit, rfl, hbad⟩ := hb
  refine ⟨as ++ .blank '\n' :: bs, ha.newline hquotes hsplit, ?_, hbad⟩
  rw [List.flatMap_append, ha.text_eq]
  rfl

namespace Token

/-- Below a source that leaves no string open, another one has the tokens that it has alone, further
down. -/
theorem scan_newline {a b : List Char} {as : List Segment} {below : List Token}
    (ha : Splits a as []) (hquotes : Even (a.count '"')) (hb : scan b = .ok below) :
    scan (a ++ '\n' :: b) =
      .ok (Segment.tokensFrom .start as ++
        below.map (mapPos (Position.down (a.count '\n' + 1)))) := by
  obtain ⟨bs, hsplit, rfl⟩ := scan_eq_ok_iff.1 hb
  -- The token that closes the second source closes both, at the place below the first.
  have hend : (⟨.eof, "", Position.start.past (a ++ '\n' :: b)⟩ : Token) =
      mapPos (Position.down (a.count '\n' + 1)) ⟨.eof, "", Position.start.past b⟩ := by
    rw [Position.start_past, Position.start_past, Position.afterText_newline]
    rfl
  rw [scan_of_splits (ha.newline hquotes hsplit), ha.tokensFrom_newline, hend, List.map_append,
    List.append_assoc]
  rfl

/-- Below such a source another one has the fault that it has alone, further down. -/
theorem scan_newline_of_error {a b : List Char} {as : List Segment} {fault : Fault}
    (ha : Splits a as []) (hquotes : Even (a.count '"')) (hb : scan b = .error fault) :
    scan (a ++ '\n' :: b) =
      .error { fault with pos := fault.pos.down (a.count '\n' + 1) } := by
  obtain ⟨before, c, after, hstops⟩ := exists_stopsAt hb
  have hfault := Except.error.inj (hb.symm.trans hstops.scan_eq)
  rw [(hstops.newline ha hquotes).scan_eq, hfault, Position.afterText_newline]

/-- A source below another one that is scanned without a fault and has an even number of quotes. The
scan of both fails exactly when that of the second alone does, and then with the same fault, in the
same column and as many lines further down as the first source has newlines, and one more. Otherwise
both have the tokens of the first without the one that closes them, and then those of the second
with the one that closes them, in the same columns and as many lines further down. Bytes that are
read as the two sources, with a newline between them, are scanned in this way too. -/
theorem scan_below {a : List Char} {tokens : List Token} (ha : scan a = .ok tokens)
    (hquotes : Even (a.count '"')) (b : List Char) :
    ((∃ fault, scan (a ++ '\n' :: b) = .error fault) ↔ ∃ fault, scan b = .error fault) ∧
      (∀ fault, scan b = .error fault →
        scan (a ++ '\n' :: b) =
          .error ⟨fault.cause, ⟨fault.pos.line + (a.count '\n' + 1), fault.pos.column⟩⟩) ∧
      (∃ above stop, tokens = above ++ [stop] ∧ stop.kind = .eof ∧ (∀ t ∈ above, t.kind ≠ .eof) ∧
        ∀ below, scan b = .ok below →
          scan (a ++ '\n' :: b) =
            .ok (above ++ below.map fun t =>
              ⟨t.kind, t.literal, ⟨t.pos.line + (a.count '\n' + 1), t.pos.column⟩⟩)) ∧
      ∀ xs ys, decodeBytes xs = a → decodeBytes ys = b →
        scan (decodeBytes (xs ++ 0x0A :: ys)) = scan (a ++ '\n' :: b) := by
  obtain ⟨as, hsplit, htokens⟩ := scan_eq_ok_iff.1 ha
  refine ⟨⟨?_, ?_⟩, ?_, ⟨_, _, htokens, rfl, hsplit.kind_ne_eof _, ?_⟩, ?_⟩
  · rintro ⟨fault, hboth⟩
    cases hb : scan b with
    | error fault' => exact ⟨fault', rfl⟩
    | ok below => cases hboth.symm.trans (scan_newline hsplit hquotes hb)
  · rintro ⟨fault, hb⟩
    exact ⟨_, scan_newline_of_error hsplit hquotes hb⟩
  · intro fault hb
    exact scan_newline_of_error hsplit hquotes hb
  · intro below hb
    exact scan_newline hsplit hquotes hb
  · rintro xs ys rfl rfl
    exact congrArg scan (decodeBytes_append_cons xs (by decide) ys)

/-- A number that ends in a point is not lengthened by the digit below it. A source that fails below
it, and one that leaves a string open. -/
theorem scan_below_point :
    let a := ['"', '\n', '"', '1', '.']
    let above : List Token := [⟨.string, "\n", ⟨2, 1⟩⟩, ⟨.float, "1.", ⟨2, 3⟩⟩]
    let bad := ['5', ' ', '!']
    let opening := ['5', '"', 'x']
    scan a = .ok (above ++ [⟨.eof, "", ⟨2, 4⟩⟩]) ∧ Even (a.count '"') ∧
      scan bad = .error ⟨.loneBang, ⟨1, 3⟩⟩ ∧
      scan (a ++ '\n' :: bad) = .error ⟨.loneBang, ⟨3, 3⟩⟩ ∧
      scan opening = .ok [⟨.int, "5", ⟨1, 1⟩⟩, ⟨.eof, "", ⟨1, 4⟩⟩] ∧
      scan (a ++ '\n' :: opening) =
        .ok (above ++ [⟨.int, "5", ⟨3, 1⟩⟩, ⟨.eof, "", ⟨3, 4⟩⟩]) ∧
      scan (decodeBytes ([0x22, 0x0A, 0x22, 0x31, 0x2E] ++ 0x0A :: [0x35, 0x20, 0x21])) =
        .error ⟨.loneBang, ⟨3, 3⟩⟩ := by
  intro a above bad opening
  have hstring : Lexeme .string ['"', '\n', '"'] .string (String.ofList ['\n']) :=
    @Lexeme.string ['\n'] (by decide)
  have hquoted : Longest .string ['"', '\n', '"'] ['1', '.'] := @longest_string ['\n'] _
  have hdigits : ∀ d ∈ ['1'], isDigit d := by simp; decide
  have hnumber : Lexeme .number ['1', '.'] .float (String.ofList ['1', '.']) :=
    @Lexeme.fraction ['1'] [] (by simp) hdigits (by simp)
  have hpoint : Longest .number ['1', '.'] [] :=
    (@longest_fraction_iff ['1'] [] [] (by simp) hdigits (by simp)).2 (headFails_nil _)
  have hscan : scan a = .ok (above ++ [⟨.eof, "", ⟨2, 4⟩⟩]) :=
    scan_of_splits (.lexeme hstring hquoted (.lexeme hnumber hpoint .done))
  have hstops : StopsAt bad ['5', ' '] '!' [] := by
    refine ⟨[.lexeme ['5'] .int (String.ofList ['5']), .blank ' '], ?_, rfl, .inl ⟨rfl, by simp⟩⟩
    exact .digit (by decide) (headFails_cons.2 (by decide)) (.blank (by decide) .done)
  have hopening : scan opening = .ok [⟨.int, "5", ⟨1, 1⟩⟩, ⟨.eof, "", ⟨1, 4⟩⟩] :=
    scan_of_splits (.digit (by decide) (headFails_cons.2 (by decide)) (.unclosed (by decide)))
  have hquotes : Even (a.count '"') := by decide
  obtain ⟨-, hfails, -, hbytes⟩ := scan_below hscan hquotes bad
  obtain ⟨-, -, ⟨above', stop, htokens, -, -, hjoined⟩, -⟩ := scan_below hscan hquotes opening
  obtain ⟨rfl, -⟩ := List.append_inj' htokens rfl
  have hbad := hfails _ hstops.scan_eq
  exact ⟨hscan, hquotes, hstops.scan_eq, hbad, hopening, hjoined _ hopening,
    (hbytes _ _ (by decide) (by decide)).trans hbad⟩

end Token
end Reckoner
