import Reckoner.Json.Printer
import Reckoner.Proofs.Json.Machine

/-!
# Reading what is written

The machine takes a written string and has its characters, whatever was escaped in it, and it takes
a written object of strings and has its fields. Values that it takes so can be added to an array at
the end of its items.

* `Piece.Stands`, `joinPieces_of_stands` — the characters of a string, piece by piece;
* `takes_string` — a written string, which is a value or the name of a field;
* `IsText`, `IsObjectText` — texts that the machine takes for a value wherever one may begin;
* `isObjectText_text` — the text of an object of strings;
* `takes_closed_items` — texts that go on with an open array, and its end;
* `read?_append` — an array with values added.
-/

namespace Reckoner.Json.Reader

open Text (hex hexDigit isDigit)

/-! ## Characters in strings -/

/-- The piece stands for the character, as it is or by its code. -/
def Piece.Stands (p : Piece) (c : Char) : Prop :=
  p = .char c ∨ p = .escape c.toNat

theorem charOfCode_toNat (c : Char) : charOfCode c.toNat = c := by
  have hvalid : c.toNat < 0xD800 ∨ (0xDFFF < c.toNat ∧ c.toNat < 0x110000) := c.valid
  have hpair : ¬ (0xD800 ≤ c.toNat ∧ c.toNat < 0xE000) := by omega
  simp [charOfCode, hpair, Char.ofNat_toNat]

/-- The code of a character is never half of a pair. -/
theorem joinPieces_escape (c : Char) (rest : List Piece) :
    joinPieces (.escape c.toNat :: rest) = c :: joinPieces rest := by
  have hvalid : c.toNat < 0xD800 ∨ (0xDFFF < c.toNat ∧ c.toNat < 0x110000) := c.valid
  rcases rest with _ | ⟨d | low, rest⟩
  · simp [joinPieces, charOfCode_toNat]
  · simp [joinPieces, charOfCode_toNat]
  · rw [joinPieces, if_neg, charOfCode_toNat]
    simp only [Bool.and_eq_true, decide_eq_true_eq]
    omega

theorem joinPieces_of_stands {pieces : List Piece} {cs : List Char}
    (h : List.Forall₂ Piece.Stands pieces cs) : joinPieces pieces = cs := by
  induction h with
  | nil => rfl
  | cons hpiece _ ih =>
      rcases hpiece with rfl | rfl
      · rw [joinPieces, ih]
      · rw [joinPieces_escape, ih]

theorem hexValue?_hexDigit {d : Nat} (h : d < 16) : Fraction.hexValue? (hexDigit d) = some d := by
  revert d
  decide

section Strings

variable {fields : Option (List (String × Json))} {frames : List Frame} {room : Nat}

/-- A code in four digits. -/
theorem takes_code {read : List Piece} {n : Nat} (hn : n < 0x10000) :
    Takes ⟨.code fields read 4 0, frames, room⟩ (hex 4 n)
      ⟨.string fields (.escape n :: read), frames, room⟩ := by
  have hdigit (k : Nat) : Fraction.hexValue? (hexDigit (k % 16)) = some (k % 16) :=
    hexValue?_hexDigit (by omega)
  have hsum : (((n / 16 / 16 / 16 % 16 * 16 + n / 16 / 16 % 16) * 16 + n / 16 % 16) * 16
      + n % 16) = n := by omega
  simp [hex, takes_cons, step, hdigit, hsum]

/-- A character as it is written is taken as one piece. -/
theorem exists_takes_escapedChar (read : List Piece) (c : Char) :
    ∃ piece : Piece, piece.Stands c ∧
      Takes ⟨.string fields read, frames, room⟩ (escapedChar c)
        ⟨.string fields (piece :: read), frames, room⟩ := by
  -- An escape by a letter, as far as the machine is concerned.
  have hshort {e d : Char} (hd : shortEscape? d = some e) (hu : d ≠ 'u') :
      Takes ⟨.string fields read, frames, room⟩ ['\\', d]
        ⟨.string fields (.escape e.toNat :: read), frames, room⟩ := by
    simp [takes_cons, step, hd, hu]
  unfold escapedChar
  split
  · exact ⟨_, .inr rfl, hshort rfl (by decide)⟩
  · exact ⟨_, .inr rfl, hshort rfl (by decide)⟩
  · exact ⟨_, .inr rfl, hshort rfl (by decide)⟩
  · exact ⟨_, .inr rfl, hshort rfl (by decide)⟩
  · exact ⟨_, .inr rfl, hshort rfl (by decide)⟩
  · next hquote hbackslash _ _ _ =>
    split
    · next hcode => exact ⟨_, .inr rfl, hcode ▸ hshort (e := Char.ofNat 8) rfl (by decide)⟩
    · next hcode => exact ⟨_, .inr rfl, hcode ▸ hshort (e := Char.ofNat 12) rfl (by decide)⟩
    split
    · next hescaped =>
      have hcode : c.toNat < 0x10000 := by
        simp only [Bool.or_eq_true, decide_eq_true_eq, beq_iff_eq] at hescaped
        rcases hescaped with ((((h | rfl) | rfl) | rfl) | h) | h
        · omega
        · decide
        · decide
        · decide
        · omega
        · omega
      exact ⟨_, .inr rfl, .cons rfl (.cons rfl (takes_code hcode))⟩
    · next hplain =>
      have hcontrol : ¬ c.toNat < 32 := by
        intro h
        simp [h] at hplain
      have hquote : c ≠ '"' := hquote
      have hbackslash : c ≠ '\\' := hbackslash
      refine ⟨.char c, .inl rfl, ?_⟩
      simp [step, hquote, hbackslash, hcontrol]

/-- The characters of a string are taken piece by piece. -/
theorem exists_takes_escaped (cs : List Char) (read : List Piece) :
    ∃ pieces : List Piece, List.Forall₂ Piece.Stands pieces cs ∧
      Takes ⟨.string fields read, frames, room⟩ (cs.flatMap escapedChar)
        ⟨.string fields (pieces.reverse ++ read), frames, room⟩ := by
  induction cs generalizing read with
  | nil => exact ⟨[], .nil, rfl⟩
  | cons c cs ih =>
      rcases exists_takes_escapedChar read c with ⟨piece, hpiece, hfirst⟩
      rcases ih (piece :: read) with ⟨pieces, hpieces, hrest⟩
      refine ⟨piece :: pieces, .cons hpiece hpieces, ?_⟩
      rw [List.flatMap_cons, List.reverse_cons, List.append_assoc]
      exact hfirst.append hrest

/-- After the closing quote of a string: it is a value, or the name of a field. -/
def endMode (text : String) : Option (List (String × Json)) → Mode
  | none => .after (.string text)
  | some fields => .colon fields text

/-- A written string behind its opening quote. -/
theorem takes_string (s : String) :
    Takes ⟨.string fields [], frames, room⟩ (s.toList.flatMap escapedChar ++ ['"'])
      ⟨endMode s fields, frames, room⟩ := by
  rcases exists_takes_escaped s.toList [] with ⟨pieces, hpieces, htakes⟩
  refine htakes.append (takes_singleton.2 ?_)
  have htext : String.ofList (joinPieces pieces) = s := by
    rw [joinPieces_of_stands hpieces, String.ofList_toList]
  cases fields with
  | none => simp [step, endString, htext, endMode]
  | some fields => simp [step, endString, htext, endMode]

end Strings

/-! ## Values -/

theorem stringText_toList (s : String) :
    (stringText s).toList = '"' :: (s.toList.flatMap escapedChar ++ ['"']) := by
  simp [stringText]

theorem step_of_mayBegin {mode : Mode} (hmode : mode.MayBegin) {frames : List Frame} {room : Nat}
    {c : Char} (hspace : isSpace c = false) (hclosing : c ≠ ']') :
    step ⟨mode, frames, room⟩ c = beginValue ⟨mode, frames, room⟩ c := by
  cases mode with
  | value => simp [step, hspace]
  | firstItem => simp [step, hspace, hclosing]
  | _ => cases hmode

/-- A field with a string in it. -/
theorem takes_field (done : List (String × Json)) (mayEnd : Bool) (name value : String)
    (frames : List Frame) (room : Nat) :
    Takes ⟨.key done mayEnd, frames, room⟩ (stringText name ++ ":" ++ stringText value).toList
      ⟨.after (.string value), .object done name :: frames, room⟩ := by
  have hname : Takes ⟨.key done mayEnd, frames, room⟩ (stringText name).toList
      ⟨.colon done name, frames, room⟩ := by
    rw [stringText_toList]
    exact .cons rfl (takes_string name)
  have hvalue : Takes ⟨.value, .object done name :: frames, room⟩ (stringText value).toList
      ⟨.after (.string value), .object done name :: frames, room⟩ := by
    rw [stringText_toList]
    exact .cons rfl (takes_string value)
  have hcolon : Takes ⟨.colon done name, frames, room⟩ ":".toList
      ⟨.value, .object done name :: frames, room⟩ := takes_singleton.2 rfl
  rw [String.toList_append, String.toList_append]
  exact (hname.append hcolon).append hvalue

/-- The fields of an object and its end. -/
theorem takes_fields {fields : List (String × Json)} (hne : fields ≠ [])
    (hstrings : ∀ field ∈ fields, ∃ value, field.2 = .string value)
    (done : List (String × Json)) (mayEnd : Bool) (frames : List Frame) (room : Nat) :
    Takes ⟨.key done mayEnd, frames, room⟩
      ((",".intercalate (fieldTexts fields)).toList ++ ['\x7d'])
      ⟨.after (.object (done.reverse ++ fields)), frames, room + 1⟩ := by
  induction fields generalizing done mayEnd with
  | nil => exact absurd rfl hne
  | cons field rest ih =>
      rcases field with ⟨name, j⟩
      have ⟨⟨value, hj⟩, hrest⟩ := List.forall_mem_cons.1 hstrings
      obtain rfl : j = .string value := hj
      have hfield := takes_field done mayEnd name value frames room
      cases rest with
      | nil =>
          rw [fieldTexts, fieldTexts, String.intercalate_singleton, Json.text]
          refine hfield.append (takes_singleton.2 ?_)
          simp [step, afterValue, isSpace]
      | cons next more =>
          have hnext := ih (by simp) hrest ((name, .string value) :: done) false
          rw [fieldTexts, fieldTexts, String.intercalate_cons_cons, Json.text,
            String.toList_append, String.toList_append, List.append_assoc, List.append_assoc]
          rw [fieldTexts] at hnext
          refine hfield.append (.cons rfl ?_)
          simpa using hnext

/-- The machine takes the text for the value wherever a value may begin. -/
def IsText (text : String) (j : Json) : Prop :=
  ∀ (mode : Mode) (frames : List Frame) (room : Nat), mode.MayBegin →
    Takes ⟨mode, frames, room + 1⟩ text.toList ⟨.after j, frames, room + 1⟩

/-- The text stands for the value, from the opening brace of an object to its closing brace. -/
structure IsObjectText (text : String) (j : Json) : Prop where
  braces : ∃ inner, text.toList = '\x7b' :: (inner ++ ['\x7d'])
  isText : IsText text j

/-- The text of an object of strings. -/
theorem isObjectText_text {fields : List (String × Json)} (hne : fields ≠ [])
    (hstrings : ∀ field ∈ fields, ∃ value, field.2 = .string value) :
    IsObjectText (Json.object fields).text (.object fields) := by
  have htext : (Json.object fields).text.toList =
      '\x7b' :: ((",".intercalate (fieldTexts fields)).toList ++ ['\x7d']) := by
    rw [Json.text, String.toList_append, String.toList_append]
    rfl
  refine ⟨⟨_, htext⟩, ?_⟩
  intro mode frames room hmode
  have hopen : step ⟨mode, frames, room + 1⟩ '\x7b' = some ⟨.key [] true, frames, room⟩ :=
    step_of_mayBegin hmode rfl (by decide)
  have hfields := takes_fields hne hstrings [] true frames room
  rw [htext]
  exact .cons hopen hfields

/-! ## Values added to an array -/

theorem step_of_complete {mode : Mode} {v : Json} (h : mode.complete? = some v)
    {frames : List Frame} {room : Nat} {c : Char} (hc : isNumberChar c = false) :
    step ⟨mode, frames, room⟩ c = afterValue ⟨mode, frames, room⟩ v c := by
  cases mode with
  | after w =>
      cases h
      rfl
  | number read =>
      rw [Mode.complete?] at h
      split at h
      · next hnumber =>
        cases h
        simp [step, hc, hnumber]
      · cases h
  | _ => cases h

/-- What stands before the next item. -/
def separator (items : List Json) : String :=
  if items.isEmpty then "\n  " else ",\n  "

theorem Awaits.takes_separator {s : State} {items : List Json} (hs : Awaits s items) :
    ∃ mode, mode.MayBegin ∧
      Takes s (separator items).toList ⟨mode, [.array items.reverse], 9999⟩ := by
  rcases s with ⟨mode, frames, room⟩
  obtain rfl : room = 9999 := hs.room
  rcases hs.last with ⟨hmode, hframes, rfl⟩ | ⟨v, earlier, hmode, hframes, rfl⟩
  · obtain rfl : mode = .firstItem := hmode
    obtain rfl : frames = [.array []] := hframes
    exact ⟨.firstItem, trivial, rfl⟩
  · obtain rfl : frames = [.array earlier] := hframes
    have hcomma : step ⟨mode, [.array earlier], 9999⟩ ',' =
        some ⟨.value, [.array (v :: earlier)], 9999⟩ :=
      step_of_complete hmode rfl
    have htext : (separator (v :: earlier).reverse).toList = [',', '\n', ' ', ' '] := by
      simp [separator]
    rw [htext, List.reverse_reverse]
    exact ⟨.value, trivial, .cons hcomma rfl⟩

theorem Awaits.takes_closing {s : State} {items : List Json} (hs : Awaits s items) :
    Takes s [']'] ⟨.after (.array items), [], 10000⟩ := by
  rcases s with ⟨mode, frames, room⟩
  obtain rfl : room = 9999 := hs.room
  rcases hs.last with ⟨hmode, hframes, rfl⟩ | ⟨v, earlier, hmode, hframes, rfl⟩
  · obtain rfl : mode = .firstItem := hmode
    obtain rfl : frames = [.array []] := hframes
    rfl
  · obtain rfl : frames = [.array earlier] := hframes
    exact takes_singleton.2 (step_of_complete hmode rfl)

/-- Texts of values that go on with an open array, and its end. -/
theorem takes_closed_items {texts : List String} {js : List Json}
    (h : List.Forall₂ IsText texts js) (hne : texts ≠ []) (done : List Json) {mode : Mode}
    (hmode : mode.MayBegin) (outer : List Frame) (room : Nat) :
    Takes ⟨mode, .array done :: outer, room + 1⟩
      (",\n  ".intercalate texts ++ "\n]\n").toList
      ⟨.after (.array (done.reverse ++ js)), outer, room + 2⟩ := by
  induction h generalizing done mode with
  | nil => exact absurd rfl hne
  | @cons text j texts js hj hrest ih =>
      have hfirst := hj mode (.array done :: outer) room hmode
      cases hrest with
      | nil =>
          rw [String.intercalate_singleton, String.toList_append, ← List.reverse_cons]
          exact hfirst.append rfl
      | cons _ _ =>
          have hcomma : Takes ⟨.after j, .array done :: outer, room + 1⟩ ",\n  ".toList
              ⟨.value, .array (j :: done) :: outer, room + 1⟩ := rfl
          have hvalue : Mode.MayBegin .value := trivial
          have hmore := ih (by simp) (j :: done) hvalue
          rw [String.intercalate_cons_cons, String.append_assoc, String.toList_append,
            String.toList_append]
          simpa using (hfirst.append hcomma).append hmore

/-- An array up to the end of its items, with values added and a closing bracket. -/
theorem read?_append {before : List Char} {s : State} {items js : List Json}
    (hbefore : Takes {} before s) (hs : Awaits s items) {texts : List String}
    (h : List.Forall₂ IsText texts js) (hne : texts ≠ []) :
    read? (before ++ (separator items ++ (",\n  ".intercalate texts ++ "\n]\n")).toList) =
      some (.array (items ++ js)) := by
  rcases hs.takes_separator with ⟨mode, hmode, hseparator⟩
  have hitems := takes_closed_items h hne items.reverse hmode [] 9998
  rw [List.reverse_reverse] at hitems
  refine read?_eq_some_iff.2 ⟨⟨.after (.array (items ++ js)), [], 10000⟩, ?_, rfl⟩
  rw [String.toList_append]
  exact hbefore.append (hseparator.append hitems)

end Reckoner.Json.Reader
