import Mathlib.Data.List.Forall2
import Reckoner.Proofs.History.Codecs
import Reckoner.Proofs.Utf8

/-!
# The content of a history

Adding entries to the content of a history looks for the last closing bracket and the last byte
before it that is no blank, and knows nothing else of the content. In a content that can be read,
these are the end of the array and the end of its last item, so that the entries come after those
that were there.

* `IsCut`, `isCut_of_cutClosing` — what is cut off;
* `BeginsArray` — an array up to the last closing bracket;
* `IsCut.awaits` — the machine that reads the array is at the end of its items there;
* `Grows.readBytes?_eq` — the array that a content with entries added is;
* `entries?_append` — the entries of a content with entries added;
* `IsReady`, `isReady_of_append` — a content with entries added can be added to again.
-/

namespace Reckoner.History

open Text Json.Reader

/-! ## What is cut off -/

theorem exists_of_reverse_dropWhile {α : Type} {p : α → Bool} {xs ys : List α} {y : α}
    (h : xs.reverse.dropWhile p = y :: ys) :
    ∃ zs, xs = ys.reverse ++ y :: zs ∧ (∀ z ∈ zs, p z) ∧ p y = false := by
  refine ⟨(xs.reverse.takeWhile p).reverse, ?_, ?_, ?_⟩
  · have hsplit : xs.reverse.takeWhile p ++ y :: ys = xs.reverse := by
      rw [← h, List.takeWhile_append_dropWhile]
    simpa using (congrArg List.reverse hsplit).symm
  · intro z hz
    exact List.mem_takeWhile_imp (List.mem_reverse.1 hz)
  · have hhead := List.head_dropWhile_not (p := p) (l := xs.reverse) (by simp [h])
    simpa [h] using hhead

/-- The last closing bracket of the content has blanks before it, and before these comes `last`,
behind which the content is cut. -/
structure IsCut (content init : Content) (last : UInt8) (blanks tail : Content) : Prop where
  content_eq : content = init ++ last :: (blanks ++ closing :: tail)
  last_not_blank : isBlankByte last = false
  blank : ∀ b ∈ blanks, isBlankByte b
  closing_last : closing ∉ tail

section Cuts

variable {content kept init blanks tail : Content} {last : UInt8}

theorem isCut_of_cutClosing (h : cutClosing content = .ok (kept, last)) :
    ∃ init blanks tail, kept = init ++ [last] ∧ IsCut content init last blanks tail := by
  unfold cutClosing at h
  dsimp only at h
  generalize content.length - tailSize = start at h
  split at h
  · cases h
  next closing' before hclosing =>
  split at h
  · cases h
  next last' rest hlast =>
  simp only [Except.ok.injEq, Prod.mk.injEq] at h
  obtain ⟨rfl, rfl⟩ := h
  rcases exists_of_reverse_dropWhile hclosing with ⟨tail, hdrop, htail, hbracket⟩
  rw [← List.reverse_reverse before] at hlast
  rcases exists_of_reverse_dropWhile hlast with ⟨blanks, hbefore, hblanks, hvisible⟩
  obtain rfl : closing' = closing := by simpa using hbracket
  refine ⟨content.take start ++ rest.reverse, blanks, tail, by simp, ?_, hvisible, hblanks, ?_⟩
  · calc content = content.take start ++ content.drop start :=
          (List.take_append_drop start content).symm
      _ = content.take start ++ rest.reverse ++ last' :: (blanks ++ closing :: tail) := by
          rw [hdrop, hbefore]
          simp
  · intro hmem
    simpa using htail _ hmem

theorem take_of_cutClosing (h : cutClosing content = .ok (kept, last)) :
    content.take kept.length = kept := by
  rcases isCut_of_cutClosing h with ⟨init, blanks, tail, rfl, hcut⟩
  have hkept : content = (init ++ [last]) ++ (blanks ++ closing :: tail) := by
    simp [hcut.content_eq]
  rw [hkept, List.take_left]

theorem reverse_dropWhile {α : Type} {p : α → Bool} (xs : List α) {y : α} {zs : List α}
    (hzs : ∀ z ∈ zs, p z) (hy : p y = false) :
    (xs ++ y :: zs).reverse.dropWhile p = y :: xs.reverse := by
  have hreverse : (xs ++ y :: zs).reverse = zs.reverse ++ y :: xs.reverse := by simp
  have hzs : ∀ z ∈ zs.reverse, p z := fun z hz => hzs z (List.mem_reverse.1 hz)
  rw [hreverse, List.dropWhile_append_of_pos hzs]
  simp [hy]

/-- The cut is found when it is near the end of the content. -/
theorem IsCut.cutClosing_eq_ok (h : IsCut content init last blanks tail)
    (hnear : blanks.length + tail.length + 2 ≤ tailSize) :
    cutClosing content = .ok (init ++ [last], last) := by
  -- The search begins within what is kept, so that it goes over the tail and the blanks only.
  have hstart : content.length - tailSize ≤ init.length := by
    rw [h.content_eq]
    simp only [List.length_append, List.length_cons]
    omega
  unfold cutClosing
  dsimp only
  generalize content.length - tailSize = start at hstart
  have htake : content.take start = init.take start := by
    rw [h.content_eq, List.take_append_of_le_length hstart]
  have hdrop : content.drop start = (init.drop start ++ last :: blanks) ++ closing :: tail := by
    rw [h.content_eq, List.drop_append_of_le_length hstart]
    simp
  have htail : ∀ b ∈ tail, decide (b ≠ closing) := by
    intro b hb
    exact decide_eq_true (ne_of_mem_of_not_mem hb h.closing_last)
  rw [htake, hdrop, reverse_dropWhile _ htail (by simp)]
  dsimp only
  rw [reverse_dropWhile _ h.blank h.last_not_blank]
  dsimp only
  rw [List.reverse_cons, List.reverse_reverse, ← List.append_assoc, List.take_append_drop]

/-! ## The end of the items -/

theorem IsCut.decodeBytes_eq (h : IsCut content init last blanks tail) :
    decodeBytes content = decodeBytes (init ++ last :: blanks) ++ ']' :: decodeBytes tail := by
  have hbytes : content = (init ++ last :: blanks) ++ closing :: tail := by
    rw [h.content_eq]
    simp
  rw [hbytes]
  exact decodeBytes_append_cons _ (by decide) tail

theorem IsCut.closing_mem (h : IsCut content init last blanks tail) :
    ']' ∈ decodeBytes content := by
  rw [h.decodeBytes_eq]
  simp

theorem IsCut.content_ne_nil (h : IsCut content init last blanks tail) : content ≠ [] := by
  rw [h.content_eq]
  simp

/-- A closing bracket among the characters comes from a closing bracket among the bytes. -/
theorem closing_not_mem_decodeBytes {bytes : Content} (h : closing ∉ bytes) :
    ']' ∉ decodeBytes bytes := by
  intro hmem
  rcases exists_byte_of_mem_decodeFrom (by decide) hmem with ⟨b, hb, hascii, hchar⟩
  obtain rfl : closing = b := (asciiChar_inj (by decide) hascii).1 hchar
  exact h hb

theorem isBlank_of_isSpace {c : Char} (h : isSpace c) : isBlank c ∧ c.toNat < 128 := by
  simp only [isSpace, Bool.or_eq_true, beq_iff_eq] at h
  rcases h with ((rfl | rfl) | rfl) | rfl <;> decide

theorem isBlank_of_isVisible {c : Char} (h : IsVisible c) : isBlank c = false := by
  have ⟨hlow, hhigh⟩ := h
  simp only [isBlank, Bool.or_eq_false_iff, Bool.and_eq_false_iff, decide_eq_false_iff_not,
    beq_eq_false_iff_ne]
  omega

/-- Bytes of the blanks between the parts of a document. -/
theorem isBlankByte_of_isSpace {bytes : Content} (h : ∀ c ∈ decodeBytes bytes, isSpace c) :
    ∀ b ∈ bytes, isBlankByte b := by
  have ⟨_, hchars⟩ := decodeBytes_of_ascii fun c hc => (isBlank_of_isSpace (h c hc)).2
  intro b hb
  have hmem : asciiChar b ∈ decodeBytes bytes := by
    rw [hchars]
    exact List.mem_map_of_mem hb
  exact (isBlank_of_isSpace (h _ hmem)).1

/-- The entries of a content that is not only blanks are those of the array in it. -/
theorem entries?_eq_some_iff {codec : Codec} {object : Entry → Json} {ofItem? : Json → Option Entry}
    (hlawful : codec.Lawful object ofItem?) {content : Content} (h : ']' ∈ decodeBytes content)
    {es : List Entry} :
    entries? codec content = some es ↔
      (Json.readBytes? content = some .null ∧ es = []) ∨
        ∃ items, Json.readBytes? content = some (.array items) ∧ items.mapM ofItem? = some es := by
  have hbracket : ¬ (decodeBytes content).all isBlank := by
    intro hall
    exact absurd (List.all_eq_true.1 hall _ h) (by decide)
  rw [entries?, if_neg hbracket]
  exact hlawful.reads

/-- What entries are read from is an array, if it has a closing bracket. -/
theorem IsCut.exists_items {codec : Codec} {object : Entry → Json} {ofItem? : Json → Option Entry}
    (hlawful : codec.Lawful object ofItem?) (h : IsCut content init last blanks tail)
    {es : List Entry} (hes : entries? codec content = some es) :
    ∃ items, Json.readBytes? content = some (.array items) ∧ items.mapM ofItem? = some es := by
  rcases (entries?_eq_some_iff hlawful h.closing_mem).1 hes with ⟨hread, -⟩ | harray
  · -- No array is behind `null`, so the last closing bracket belongs to the array that is read.
    rw [Json.readBytes?, h.decodeBytes_eq] at hread
    have hlast := closing_not_mem_decodeBytes h.closing_last
    rcases awaits_of_closing hlast (.inl rfl) hread with ⟨_, _, hnull, -⟩
    cases hnull
  · exact harray

/-- In a content that is read as an array, the cut is right behind the items. -/
theorem IsCut.awaits_of_read (h : IsCut content init last blanks tail) {items : List Json}
    (hread : Json.readBytes? content = some (.array items)) :
    ∃ s, IsAscii last ∧ (last = opening ↔ items = []) ∧
      Takes {} (decodeBytes init ++ [asciiChar last]) s ∧ Awaits s items := by
  rw [Json.readBytes?, h.decodeBytes_eq] at hread
  rcases awaits_of_closing (closing_not_mem_decodeBytes h.closing_last) (.inr ⟨items, rfl⟩) hread
    with ⟨_, _, harray, htakes, hawaits⟩
  obtain rfl := Json.array.inj harray
  rcases hawaits.endsVisibly htakes with
    ⟨before, c, spaces, s, hchars, hspaces, hvisible, hopening, htakes, hs⟩
  rcases exists_bytes_of_decodeBytes (Nat.lt_succ_of_lt hvisible.2) hchars with
    ⟨xs, b, ys, hbytes, hascii, rfl, rfl, rfl⟩
  -- Both sides go back over blanks to a byte that is none, so it is the same byte.
  have hsame : last :: init.reverse = b :: xs.reverse := by
    rw [← reverse_dropWhile init h.blank h.last_not_blank, hbytes,
      reverse_dropWhile xs (isBlankByte_of_isSpace hspaces) (isBlank_of_isVisible hvisible)]
  obtain ⟨rfl, hinit⟩ := List.cons.inj hsame
  obtain rfl := List.reverse_injective hinit
  have hbracket : last = opening ↔ asciiChar last = '[' :=
    (asciiChar_inj hascii (c := opening) (by decide)).symm
  exact ⟨s, hascii, hbracket.trans hopening, htakes, hs⟩

/-- Up to its last closing bracket, but for blanks before that, the content is an array of these. -/
def BeginsArray (content : Content) (items : List Json) : Prop :=
  ∃ kept blanks behind, content = kept ++ (blanks ++ closing :: behind) ∧
    (∀ b ∈ blanks, isBlankByte b) ∧ closing ∉ behind ∧
    Json.readBytes? (kept ++ [closing]) = some (.array items)

/-- What stands before the last closing bracket goes at least as far as the cut. -/
theorem IsCut.exists_kept (h : IsCut content init last blanks tail) {kept blanks' behind : Content}
    (hcontent : content = kept ++ (blanks' ++ closing :: behind))
    (hblanks : ∀ b ∈ blanks', isBlankByte b) (hbehind : closing ∉ behind) :
    ∃ more, kept = init ++ last :: more ∧ blanks = more ++ blanks' := by
  have hother {bytes : Content} (hbytes : closing ∉ bytes) :
      ∀ b ∈ bytes, decide (b ≠ closing) := by
    intro b hb
    exact decide_eq_true (ne_of_mem_of_not_mem hb hbytes)
  have hbytes : (init ++ last :: blanks) ++ closing :: tail =
      (kept ++ blanks') ++ closing :: behind := by
    rw [List.append_assoc kept, ← hcontent, h.content_eq]
    simp
  -- Both sides go back over other bytes to the last closing bracket.
  have hsame :
      closing :: (init ++ last :: blanks).reverse = closing :: (kept ++ blanks').reverse := by
    rw [← reverse_dropWhile _ (hother h.closing_last) (by simp), hbytes,
      reverse_dropWhile _ (hother hbehind) (by simp)]
  have hkept : (init ++ [last]) ++ blanks = kept ++ blanks' := by
    simpa using List.reverse_injective (List.cons.inj hsame).2
  rcases List.append_eq_append_iff.1 hkept with ⟨more, rfl, rfl⟩ | ⟨more, hinit, rfl⟩
  · exact ⟨more, by simp, rfl⟩
  · cases more using List.reverseRecOn with
    | nil => exact ⟨[], by simpa using hinit.symm, rfl⟩
    | append_singleton more b =>
        -- The last byte that is kept is no blank.
        have hlast : last = b := by
          rw [← List.append_assoc] at hinit
          exact (List.append_singleton_inj.1 hinit).2
        have hblank := hblanks b (by simp)
        rw [← hlast, h.last_not_blank] at hblank
        cases hblank

/-- The cut of a content that begins with an array is right behind the items. -/
theorem IsCut.awaits (h : IsCut content init last blanks tail) {items : List Json}
    (hbegins : BeginsArray content items) :
    ∃ s, IsAscii last ∧ (last = opening ↔ items = []) ∧
      Takes {} (decodeBytes init ++ [asciiChar last]) s ∧ Awaits s items := by
  rcases hbegins with ⟨kept, blanks', behind, hcontent, hblanks, hbehind, hread⟩
  rcases h.exists_kept hcontent hblanks hbehind with ⟨more, rfl, rfl⟩
  have hcut : IsCut (init ++ last :: more ++ [closing]) init last more [] :=
    ⟨by simp, h.last_not_blank, fun b hb => h.blank b (List.mem_append_left _ hb), by simp⟩
  exact hcut.awaits_of_read hread

/-- Behind its items an array lacks the closing bracket only. -/
theorem readBytes?_closing {s : State} {items : List Json} (htakes : Takes {} (decodeBytes kept) s)
    (hs : Awaits s items) : Json.readBytes? (kept ++ [closing]) = some (.array items) := by
  have hchars : decodeBytes (kept ++ [closing]) = decodeBytes kept ++ [']'] :=
    decodeBytes_append_cons kept (by decide) []
  rw [Json.readBytes?, hchars]
  exact read?_eq_some_iff.2 ⟨_, htakes.append hs.takes_closing, rfl⟩

theorem IsCut.beginsArray (h : IsCut content init last blanks tail) {items : List Json}
    (hread : Json.readBytes? content = some (.array items)) : BeginsArray content items := by
  rcases h.awaits_of_read hread with ⟨s, hascii, -, htakes, hs⟩
  have hchars : decodeBytes (init ++ [last]) = decodeBytes init ++ [asciiChar last] :=
    decodeBytes_append_cons init hascii []
  rw [← hchars] at htakes
  exact ⟨init ++ [last], blanks, tail, by simp [h.content_eq], h.blank, h.closing_last,
    readBytes?_closing htakes hs⟩

end Cuts

/-! ## Entries added -/

/-- A content with entries added is made of what is kept of the one before and their texts. -/
inductive Grows : Content → List String → Content → Prop where
  | empty (texts : List String) : Grows [] texts (encodeText ("[\n  " ++ closedText texts))
  | cut {content init blanks tail : Content} {last : UInt8} (texts : List String)
      (h : IsCut content init last blanks tail) :
      Grows content texts (init ++ last :: encodeText (separator last ++ closedText texts))

theorem appendText_closedText {content content' : Content} {texts : List String}
    (h : appendText content (closedText texts) = .ok content') : Grows content texts content' := by
  rw [appendText] at h
  split at h
  · next hempty =>
    obtain rfl := List.isEmpty_iff.1 hempty
    cases h
    exact .empty texts
  · split at h
    · cases h
    next kept last hcut =>
    rcases isCut_of_cutClosing hcut with ⟨init, blanks, tail, rfl, hcontent⟩
    cases h
    simpa using Grows.cut texts hcontent

theorem appendText_eq_error {content : Content} {text : String} {e : Error}
    (h : appendText content text = .error e) : e = .noClosing ∨ e = .nothingBeforeClosing := by
  unfold appendText cutClosing at h
  dsimp only at h
  grind

section

variable {codec : Codec} {content content' : Content} {new : List Entry}

theorem append_eq_ok (hne : new ≠ []) (h : append codec content new = .ok content') :
    ∃ texts, List.Forall₂ (fun e text => codec.marshal e = .ok text) new texts ∧
      Grows content texts content' := by
  rw [append, if_neg (by simpa using hne)] at h
  cases htexts : entryTexts codec new with
  | error e =>
      rw [htexts] at h
      cases h
  | ok texts =>
      rw [htexts] at h
      exact ⟨texts, entryTexts_eq_ok htexts, appendText_closedText h⟩

/-- Entries are not added when one of them cannot be written or the end of the array is not found.
-/
theorem append_eq_error {error : Error} (h : append codec content new = .error error) :
    (∃ e ∈ new, ∃ reason, codec.marshal e = .error reason ∧ error = .unwritable reason) ∨
      error = .noClosing ∨ error = .nothingBeforeClosing := by
  rw [append] at h
  split at h
  · cases h
  cases htexts : entryTexts codec new with
  | error e =>
      rw [htexts] at h
      cases h
      exact .inl (entryTexts_eq_error htexts)
  | ok texts =>
      rw [htexts] at h
      exact .inr (appendText_eq_error h)

end

section

variable {texts : List String} {objects : List Json}

theorem exists_intercalate_text (h : List.Forall₂ IsObjectText texts objects) (hne : texts ≠ []) :
    ∃ s, ",\n  ".intercalate texts = s ++ "\x7d" := by
  induction h with
  | nil => exact absurd rfl hne
  | @cons text _ _ _ hfirst hrest ih =>
      cases hrest with
      | nil =>
          rcases hfirst.braces with ⟨inner, htext⟩
          refine ⟨String.ofList ('\x7b' :: inner), ?_⟩
          rw [String.intercalate_singleton, ← String.toList_inj, htext, String.toList_append,
            String.toList_ofList]
          rfl
      | cons _ _ =>
          rcases ih (by simp) with ⟨s, hs⟩
          refine ⟨text ++ ",\n  " ++ s, ?_⟩
          rw [String.intercalate_cons_cons, hs]
          simp only [String.append_assoc]

/-- The bytes of the entries end with a closing brace and the closing bracket on the next line. -/
theorem exists_encodeText_closedText (h : List.Forall₂ IsObjectText texts objects)
    (hne : texts ≠ []) :
    ∃ bytes, encodeText (closedText texts) = bytes ++ 0x7D :: ([0x0A] ++ closing :: [0x0A]) := by
  rcases exists_intercalate_text h hne with ⟨s, hs⟩
  have hclosing : encodeText ("\x7d" ++ "\n]\n") = 0x7D :: ([0x0A] ++ closing :: [0x0A]) := by
    rw [encodeText_eq_flatMap]
    decide
  refine ⟨encodeText s, ?_⟩
  rw [closedText, hs, String.append_assoc, encodeText_append, hclosing]

theorem Grows.exists_isCut {content content' : Content} (hgrows : Grows content texts content')
    (h : List.Forall₂ IsObjectText texts objects) (hne : texts ≠ []) :
    ∃ init, IsCut content' init 0x7D [0x0A] [0x0A] := by
  have hcut (init : Content) : IsCut (init ++ 0x7D :: ([0x0A] ++ closing :: [0x0A])) init 0x7D
      [0x0A] [0x0A] :=
    ⟨rfl, by decide, List.forall_mem_singleton.2 (by decide), by decide⟩
  rcases exists_encodeText_closedText h hne with ⟨bytes, hbytes⟩
  cases hgrows with
  | empty =>
      refine ⟨encodeText "[\n  " ++ bytes, ?_⟩
      rw [encodeText_append, hbytes, ← List.append_assoc]
      exact hcut _
  | @cut _ init _ _ last _ _ =>
      refine ⟨init ++ last :: (encodeText (separator last) ++ bytes), ?_⟩
      rw [encodeText_append, hbytes, ← List.append_assoc, ← List.cons_append, ← List.append_assoc]
      exact hcut _

/-- Entries behind the items of an array, the closing bracket of which is not read yet. -/
theorem readBytes?_of_awaits {content : Content} {before : List Char} {s : State}
    {items : List Json} (h : List.Forall₂ IsObjectText texts objects) (hne : texts ≠ [])
    (hchars : decodeBytes content =
      before ++ (Json.Reader.separator items ++ closedText texts).toList)
    (hbefore : Takes {} before s) (hs : Awaits s items) :
    Json.readBytes? content = some (.array (items ++ objects)) := by
  rw [Json.readBytes?, hchars]
  exact read?_append hbefore hs (h.imp fun _ _ htext => htext.isText) hne

/-- A content that is empty or begins with an array becomes an array with the objects as its last
items. -/
theorem Grows.readBytes?_eq {content content' : Content} (hgrows : Grows content texts content')
    (h : List.Forall₂ IsObjectText texts objects) (hne : texts ≠ []) {items : List Json}
    (hbefore : content = [] ∧ items = [] ∨ BeginsArray content items) :
    Json.readBytes? content' = some (.array (items ++ objects)) := by
  cases hgrows with
  | empty =>
      have hitems : items = [] := by
        rcases hbefore with ⟨-, hitems⟩ | ⟨kept, blanks, behind, hcontent, -⟩
        · exact hitems
        · exact absurd hcontent (by simp)
      subst hitems
      have htakes : Takes {} ['['] ⟨.firstItem, [.array []], 9999⟩ := rfl
      have hs : Awaits ⟨.firstItem, [.array []], 9999⟩ [] := ⟨rfl, .inl ⟨rfl, rfl, rfl⟩⟩
      refine readBytes?_of_awaits h hne ?_ htakes hs
      rw [decodeBytes_encodeText]
      simp [Json.Reader.separator]
  | @cut _ init _ _ last _ hcut =>
      have hbegins : BeginsArray content items :=
        hbefore.resolve_left fun hempty => hcut.content_ne_nil hempty.1
      rcases hcut.awaits hbegins with ⟨s, hascii, hlast, htakes, hs⟩
      refine readBytes?_of_awaits h hne ?_ htakes hs
      have hseparator : separator last = Json.Reader.separator items := by
        simp [separator, Json.Reader.separator, hlast]
      rw [decodeBytes_append_cons init hascii, decodeBytes_encodeText, hseparator]
      simp

end

section

variable {codec : Codec} {object : Entry → Json} {content content' : Content} {new : List Entry}

/-- What a call that adds entries makes of a content, in terms of their objects. -/
theorem exists_grows (hwrites : codec.Writes object) (hne : new ≠ [])
    (h : append codec content new = .ok content') :
    ∃ texts, List.Forall₂ (fun e text => codec.marshal e = .ok text) new texts ∧
      List.Forall₂ IsObjectText texts (new.map object) ∧ texts ≠ [] ∧
      Grows content texts content' := by
  rcases append_eq_ok hne h with ⟨texts, htexts, hgrows⟩
  refine ⟨texts, htexts, hwrites.forall₂ htexts, ?_, hgrows⟩
  rintro rfl
  cases htexts
  exact hne rfl

/-- The entries of a content with entries added. -/
theorem entries?_append {ofItem? : Json → Option Entry} (hlawful : codec.Lawful object ofItem?)
    {es : List Entry} (hes : entries? codec content = some es)
    (h : append codec content new = .ok content') :
    entries? codec content' = some (es ++ new) := by
  by_cases hne : new = []
  · subst hne
    cases h
    simpa using hes
  rcases exists_grows hlawful.writes hne h with ⟨texts, htexts, hobjects, hsome, hgrows⟩
  have hitems : ∃ items, (content = [] ∧ items = [] ∨ BeginsArray content items) ∧
      items.mapM ofItem? = some es := by
    cases hgrows with
    | empty => exact ⟨[], .inl ⟨rfl, rfl⟩, hes⟩
    | cut _ hcut =>
        rcases hcut.exists_items hlawful hes with ⟨items, hread, hitems⟩
        exact ⟨items, .inr (hcut.beginsArray hread), hitems⟩
  rcases hitems with ⟨items, hbefore, hitems⟩
  have hread := hgrows.readBytes?_eq hobjects hsome hbefore
  rcases hgrows.exists_isCut hobjects hsome with ⟨init, hcut⟩
  refine (entries?_eq_some_iff hlawful hcut.closing_mem).2 (.inr ⟨_, hread, ?_⟩)
  rw [List.mapM_append, hitems, hlawful.mapM_object htexts]
  rfl

/-! ## Adding again -/

/-- Every entry that has a text can be added to the content. -/
def IsReady (codec : Codec) (content : Content) : Prop :=
  ∀ new : List Entry, (∀ e ∈ new, ∃ text, codec.marshal e = .ok text) →
    ∃ content', append codec content new = .ok content'

theorem isReady_of_appendText (codec : Codec)
    (h : ∀ text, ∃ content', appendText content text = .ok content') : IsReady codec content := by
  intro new hnew
  rcases exists_entryTexts hnew with ⟨texts, htexts⟩
  rw [append, htexts]
  split
  · exact ⟨content, rfl⟩
  · exact h _

theorem isReady_nil (codec : Codec) : IsReady codec [] :=
  isReady_of_appendText codec fun _ => ⟨_, rfl⟩

/-- A content with entries added can be added to again. -/
theorem isReady_of_append (hwrites : codec.Writes object) (hne : new ≠ [])
    (h : append codec content new = .ok content') : IsReady codec content' := by
  rcases exists_grows hwrites hne h with ⟨texts, -, hobjects, hsome, hgrows⟩
  rcases hgrows.exists_isCut hobjects hsome with ⟨init, hcut⟩
  have hkept := hcut.cutClosing_eq_ok (by decide)
  have hnonempty : ¬ content'.isEmpty := by
    rw [hcut.content_eq]
    simp
  refine isReady_of_appendText codec fun text => ?_
  rw [appendText, if_neg hnonempty, hkept]
  exact ⟨_, rfl⟩

end

end Reckoner.History
