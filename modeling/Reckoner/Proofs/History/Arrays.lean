import Reckoner.Proofs.History.Appends

/-!
# Which histories are arrays

A file is opened as a history when a bracket stands near its beginning, and entries are added behind
whatever comes before its last closing bracket. What comes out is an array if and only if what was
there was one up to that bracket. Of all other files that are opened, the end is lost.

* `Json.Reader.mayBegin_of_takes` — where the machine takes a line break and an object;
* `Json.Reader.exists_awaits_of_opening`, `Json.Reader.exists_awaits_of_comma` — where objects
  can be added so that a document comes out;
* `Grows.exists_beginsArray` — the content that becomes a document;
* `Appender.append_array_iff` — what a call makes of a file;
* `Appender.append_not_array` — a file that is opened and destroyed.
-/

namespace Reckoner

namespace Json.Reader

/-! ## Objects behind a line break -/

/-- After a value only a delimiter or a blank is taken. -/
theorem not_takes_of_after {v : Json} {frames : List Frame} {room : Nat} {s' : State} :
    ¬ Takes ⟨.after v, frames, room⟩ [' ', ' ', '\x7b'] s' := by
  intro h
  rcases frames with _ | ⟨_ | _, frames⟩ <;> cases h

/-- Where a line break, blanks and an object are taken, a value may begin. -/
theorem mayBegin_of_takes {s s' : State} (hs : Sound s)
    (h : Takes s ['\n', ' ', ' ', '\x7b'] s') : s.mode.MayBegin ∧ ∃ room, s.room = room + 1 := by
  rcases s with ⟨mode, frames, room⟩
  cases mode with
  | value | firstItem =>
      cases room with
      | zero => cases h
      | succ room => exact ⟨trivial, room, rfl⟩
  | key fields mayEnd => simp [takes_cons, step, isSpace] at h
  | colon fields name => cases h
  | after v => exact (not_takes_of_after h).elim
  | string fields read => cases h
  | escape fields read => cases h
  | code fields read left n => cases h
  | number read =>
      rcases takes_cons.1 h with ⟨mid, hmid, hrest⟩
      cases moves_of_step hmid with
      | blank _ hmode => exact hmode.elim
      | settle _ _ => exact (not_takes_of_after hrest).elim
      | scalar hmode _ => exact hmode.elim
      | goesOn hgoes =>
          cases hgoes with
          | number hc => exact absurd hc (by decide)
  | word rest v =>
      -- What is left of a word is letters.
      cases rest with
      | nil => cases h
      | cons d more =>
          have hne : '\n' ≠ d := by
            rintro rfl
            exact absurd (hs.mode '\n' List.mem_cons_self) (by decide)
          simp [takes_cons, step, hne] at h

/-- A value may begin behind an opening bracket, behind a comma in an array and behind a colon. -/
theorem Moves.mayBegin_cases {s s' : State} {c : Char} (h : Moves s c s')
    (hc : isSpace c = false) (hmode : s'.mode.MayBegin) :
    (c = '[' ∧ s'.mode = .firstItem ∧ ∃ outer, s'.frames = .array [] :: outer) ∨
      (c = ',' ∧ ∃ v earlier outer, s.mode.complete? = some v ∧ s.frames = .array earlier :: outer ∧
        s'.frames = .array (v :: earlier) :: outer ∧ s'.room = s.room) ∨
      c = ':' := by
  cases h with
  | openArray _ => exact .inl ⟨rfl, rfl, _, rfl⟩
  | nextItem hv => exact .inr (.inl ⟨rfl, _, _, _, hv, rfl, rfl, rfl⟩)
  | colon => exact .inr (.inr rfl)
  | blank hspace _ => exact absurd hspace (by simp [hc])
  | scalar _ hscalar => cases hscalar <;> cases hmode
  | goesOn hgoes => cases hgoes <;> cases hmode
  | _ => cases hmode

theorem exists_closedText {texts : List String} {js : List Json}
    (h : List.Forall₂ IsObjectText texts js) (hne : texts ≠ []) :
    ∃ rest, (History.closedText texts).toList = '\x7b' :: rest := by
  cases h with
  | nil => exact absurd rfl hne
  | cons hfirst hrest =>
      rcases hfirst.braces with ⟨inner, htext⟩
      unfold History.closedText
      cases hrest with
      | nil =>
          rw [String.intercalate_singleton, String.toList_append, htext]
          exact ⟨_, rfl⟩
      | cons _ _ =>
          rw [String.intercalate_cons_cons]
          simp only [String.toList_append, htext]
          exact ⟨_, rfl⟩

section

variable {texts : List String} {js : List Json} (h : List.Forall₂ IsObjectText texts js)
  (hne : texts ≠ [])

include h hne

/-- Blanks before values change nothing. -/
theorem takes_of_newline {s last : State} (hs : Sound s)
    (htakes : Takes s ("\n  " ++ History.closedText texts).toList last) :
    s.mode.MayBegin ∧ (∃ room, s.room = room + 1) ∧
      Takes s (History.closedText texts).toList last := by
  rw [String.toList_append] at htakes
  rcases takes_append.1 htakes with ⟨mid, hblanks, hitems⟩
  rcases exists_closedText h hne with ⟨rest, hrest⟩
  rcases takes_cons.1 (hrest ▸ hitems) with ⟨next, hnext, -⟩
  have ⟨hmode, hroom⟩ := mayBegin_of_takes hs (hblanks.append (takes_singleton.2 hnext))
  refine ⟨hmode, hroom, ?_⟩
  rcases s with ⟨mode, frames, room⟩
  have hsame : Takes ⟨mode, frames, room⟩ "\n  ".toList ⟨mode, frames, room⟩ := by
    cases mode with
    | value | firstItem => rfl
    | _ => cases hmode
  rw [Takes, hblanks, Option.some_inj] at hsame
  exact hsame ▸ hitems

/-- Values with the end of an array end a document only if nothing else is open. -/
theorem outer_eq_nil_of_takes {done : List Json} {mode : Mode} (hmode : mode.MayBegin)
    {outer : List Frame} {room : Nat} {last : State} {v : Json}
    (htakes : Takes ⟨mode, .array done :: outer, room + 1⟩ (History.closedText texts).toList last)
    (hfinish : finish? last = some v) : outer = [] := by
  have hitems := takes_closed_items (h.imp fun _ _ htext => htext.isText) hne done hmode outer room
  rw [← History.closedText, Takes, htakes, Option.some_inj] at hitems
  rw [hitems] at hfinish
  cases outer with
  | nil => rfl
  | cons frame outer => cases hfinish

/-- Objects that go on with an array make a document only if it is the outermost. -/
theorem outermost_of_takes {before : List Char} {s last : State} {done : List Json}
    {outer : List Frame} {v : Json} (hs : Takes {} before s)
    (hframes : s.frames = .array done :: outer)
    (htakes : Takes s ("\n  " ++ History.closedText texts).toList last)
    (hfinish : finish? last = some v) : outer = [] ∧ s.room = 9999 := by
  have hsound := hs.sound.room
  have ⟨hmode, ⟨room, hroom⟩, hitems⟩ := takes_of_newline h hne hs.sound htakes
  rcases s with ⟨mode, frames, _⟩
  obtain rfl := hframes
  obtain rfl := hroom
  obtain rfl := outer_eq_nil_of_takes h hne hmode hitems hfinish
  rw [Mode.pending_of_mayBegin hmode, List.length_singleton] at hsound
  exact ⟨rfl, by omega⟩

/-- Objects behind an opening bracket make a document only if it opens the document. -/
theorem exists_awaits_of_opening {before : List Char} {v : Json}
    (hread : read? (before ++ '[' :: ("\n  " ++ History.closedText texts).toList) = some v) :
    ∃ s, Takes {} (before ++ ['[']) s ∧ Awaits s [] := by
  rcases read?_eq_some_iff.1 hread with ⟨last, htakes, hfinish⟩
  rcases takes_append.1 htakes with ⟨s, hbefore, hrest⟩
  rcases takes_cons.1 hrest with ⟨mid, hmid, hitems⟩
  have hopened : Takes {} (before ++ ['[']) mid := hbefore.append (takes_singleton.2 hmid)
  have hmode := (takes_of_newline h hne hopened.sound hitems).1
  rcases (moves_of_step hmid).mayBegin_cases rfl hmode with
    ⟨-, hfirst, outer, hframes⟩ | ⟨hcomma, -⟩ | hcolon
  · obtain ⟨rfl, hroom⟩ := outermost_of_takes h hne hopened hframes hitems hfinish
    exact ⟨mid, hopened, hroom, .inl ⟨hfirst, hframes, rfl⟩⟩
  · exact absurd hcomma (by decide)
  · exact absurd hcolon (by decide)

/-- Objects behind a comma make a document only if they go on with the outermost array. -/
theorem exists_awaits_of_comma {before : List Char} {v : Json}
    (hread : read? (before ++ (",\n  " ++ History.closedText texts).toList) = some v) :
    ∃ items s, Takes {} before s ∧ Awaits s items := by
  rcases read?_eq_some_iff.1 hread with ⟨last, htakes, hfinish⟩
  rcases takes_append.1 htakes with ⟨s, hbefore, hrest⟩
  have htext : (",\n  " ++ History.closedText texts).toList =
      ',' :: ("\n  " ++ History.closedText texts).toList := by
    simp only [String.toList_append]
    rfl
  rcases takes_cons.1 (htext ▸ hrest) with ⟨mid, hmid, hitems⟩
  have hcomma : Takes {} (before ++ [',']) mid := hbefore.append (takes_singleton.2 hmid)
  have hmode := (takes_of_newline h hne hcomma.sound hitems).1
  rcases (moves_of_step hmid).mayBegin_cases rfl hmode with
    ⟨hopening, -⟩ | ⟨-, v, earlier, outer, hv, hframes, hmore, hroom⟩ | hcolon
  · exact absurd hopening (by decide)
  · obtain ⟨rfl, hmost⟩ := outermost_of_takes h hne hcomma hmore hitems hfinish
    exact ⟨_, s, hbefore, hroom ▸ hmost, .inr ⟨v, earlier, hv, hframes, rfl⟩⟩
  · exact absurd hcolon (by decide)

end

end Json.Reader

namespace History

open Text Json.Reader

/-! ## Contents -/

/-- A text that begins with a comma is read apart from what is before it. -/
theorem decodeBytes_append_comma (kept : Content) (text : String) :
    decodeBytes (kept ++ encodeText (",\n  " ++ text)) =
      decodeBytes kept ++ (",\n  " ++ text).toList := by
  have htext : ",\n  " ++ text = "," ++ ("\n  " ++ text) := by
    rw [← String.append_assoc]
    rfl
  have hcomma : encodeText "," = [0x2C] := by
    rw [encodeText_eq_flatMap]
    decide
  have hchars : ("," ++ ("\n  " ++ text)).toList = ',' :: ("\n  " ++ text).toList := by
    rw [String.toList_append]
    rfl
  rw [htext, encodeText_append, hcomma, List.singleton_append,
    decodeBytes_append_cons kept (by decide), decodeBytes_encodeText, hchars]
  rfl

/-- A content that becomes a document with entries added is empty or begins with an array. -/
theorem Grows.exists_beginsArray {content content' : Content} {texts : List String}
    {js : List Json} (hgrows : Grows content texts content')
    (h : List.Forall₂ IsObjectText texts js) (hne : texts ≠ []) {v : Json}
    (hread : Json.readBytes? content' = some v) :
    content = [] ∨ ∃ items, BeginsArray content items := by
  cases hgrows with
  | empty => exact .inl rfl
  | @cut _ init blanks tail last _ hcut =>
      have hawaits : ∃ items s, Takes {} (decodeBytes (init ++ [last])) s ∧ Awaits s items := by
        rw [Json.readBytes?] at hread
        by_cases hlast : last = opening
        · subst hlast
          have hopening : IsAscii opening := by decide
          rw [separator, if_pos rfl, decodeBytes_append_cons init hopening,
            decodeBytes_encodeText] at hread
          rw [decodeBytes_append_cons init hopening]
          exact ⟨[], exists_awaits_of_opening h hne hread⟩
        · rw [separator, if_neg hlast, ← List.singleton_append, ← List.append_assoc,
            decodeBytes_append_comma] at hread
          exact exists_awaits_of_comma h hne hread
      rcases hawaits with ⟨items, s, htakes, hs⟩
      exact .inr ⟨items, init ++ [last], blanks, tail, by simp [hcut.content_eq], hcut.blank,
        hcut.closing_last, readBytes?_closing htakes hs⟩

/-! ## Files -/

namespace Appender

/-- A call that adds entries to a history that was opened makes a document of it if and only if the
file was empty or an array up to its last closing bracket. The document is an array then, which has
the objects of the entries of the call, in order, behind the items that were there. This is so for
every codec that writes entries as objects. -/
theorem append_array_iff {codec : Codec} {object : Entry → Json} (hwrites : codec.Writes object)
    {files opened later : Files} {path : String} {a : Appender} {new : List Entry}
    (hstart : start files path = .ok (a, opened)) (hne : new ≠ [])
    (happend : a.append codec opened new = .ok later) :
    ∃ content content',
      (files.locate path = .ok (.file a.file content) ∨
        files.locate path = .ok (.vacant a.file) ∧ content = []) ∧
      later.locate path = .ok (.file a.file content') ∧
      ((∃ v, Json.readBytes? content' = some v) ↔
        content = [] ∨ ∃ items, BeginsArray content items) ∧
      (content = [] → Json.readBytes? content' = some (.array (new.map object))) ∧
      (∀ items, BeginsArray content items →
        Json.readBytes? content' = some (.array (items ++ new.map object))) ∧
      ∀ items, Json.readBytes? content = some (.array items) → BeginsArray content items := by
  obtain ⟨rfl, hopen, content, hopened, hlocated⟩ := located_of_start hstart
  rw [append_of_located hopen hopened] at happend
  cases hcontent : History.append codec content new with
  | error e =>
      rw [hcontent] at happend
      cases happend
  | ok content' =>
      rw [hcontent] at happend
      cases happend
      rcases exists_grows hwrites hne hcontent with ⟨texts, -, hobjects, hsome, hgrows⟩
      have hempty (hnil : content = []) :
          Json.readBytes? content' = some (.array (new.map object)) :=
        hgrows.readBytes?_eq hobjects hsome (.inl ⟨hnil, rfl⟩)
      have hbegins (items : List Json) (h : BeginsArray content items) :=
        hgrows.readBytes?_eq hobjects hsome (.inr h)
      refine ⟨content, content', hlocated, Files.locate_set hopened rfl content', ⟨?_, ?_⟩, hempty,
        hbegins, ?_⟩
      · rintro ⟨v, hread⟩
        exact hgrows.exists_beginsArray hobjects hsome hread
      · rintro (hnil | ⟨items, h⟩)
        · exact ⟨_, hempty hnil⟩
        · exact ⟨_, hbegins items h⟩
      · intro items hread
        cases hgrows with
        | empty => cases hread
        | cut _ hcut => exact hcut.beginsArray hread

/-- An array with something behind it that is lost. -/
theorem append_array_iff_behind :
    let content : Content := "[1] x".toList.map fun c => UInt8.ofNat c.toNat
    let files : Files := [("h.json", content)]
    let a : Appender := { path := "h.json" }
    Codec.json.Writes Entry.toJson ∧ start files "h.json" = .ok (a, files) ∧
      BeginsArray content [.number "1"] ∧
      ∃ later content', a.append .json files [{}] = .ok later ∧
        later.locate "h.json" = .ok (.file "h.json" content') ∧
        Json.readBytes? content' = some (.array [.number "1", Entry.toJson {}]) := by
  intro content files a
  have hwrites : Codec.json.Writes Entry.toJson := Codec.json_lawful.writes
  have hstart : start files "h.json" = .ok (a, files) := rfl
  have hbegins : BeginsArray content [.number "1"] :=
    ⟨content.take 2, [], content.drop 3, rfl, by simp, by decide, rfl⟩
  have hok : (a.append .json files [{}]).isOk := by decide +zetaReduce
  cases happend : a.append .json files [{}] with
  | error e =>
      rw [happend] at hok
      cases hok
  | ok later =>
      rcases append_array_iff hwrites hstart (by simp) happend with
        ⟨content₁, content', hbefore, hlater, -, -, harray, -⟩
      rcases hbefore with hfile | ⟨hvacant, -⟩
      · cases hfile
        exact ⟨hwrites, hstart, hbegins, later, content', rfl, hlater, harray _ hbegins⟩
      · cases hvacant

/-- An object with an array in it: the file is opened as a history, and the call leaves nothing that
could be read. -/
theorem append_not_array :
    let content : Content := "\x7b\"runs\": [1]\x7d".toList.map fun c => UInt8.ofNat c.toNat
    let files : Files := [("h.json", content)]
    let a : Appender := { path := "h.json" }
    start files "h.json" = .ok (a, files) ∧
      ∃ later content', a.append .json files [{}] = .ok later ∧
        later.locate "h.json" = .ok (.file "h.json" content') ∧
        Json.readBytes? content' = none := by
  intro content files a
  have hlocated : files.locate "h.json" = .ok (.file "h.json" content) := rfl
  have hcut : IsCut content (content.take 10) 0x31 [] [0x7D] :=
    ⟨rfl, by decide, by simp, by decide⟩
  -- The last closing bracket closes an array inside the object.
  have hnot (items : List Json) : ¬ BeginsArray content items := by
    intro h
    rcases hcut.awaits h with ⟨s, -, -, htakes, hs⟩
    have hroom : some 9998 = some s.room := congrArg (Option.map State.room) htakes
    rw [hs.room] at hroom
    cases hroom
  have hok : (a.append .json files [{}]).isOk := by decide +zetaReduce
  cases happend : History.append .json content [{}] with
  | error e =>
      rw [append_of_located rfl hlocated, happend] at hok
      cases hok
  | ok content' =>
      refine ⟨rfl, files.set "h.json" content', content', ?_,
        Files.locate_set hlocated rfl content', ?_⟩
      · rw [append_of_located rfl hlocated, happend]
        rfl
      · cases hread : Json.readBytes? content' with
        | none => rfl
        | some v =>
            rcases exists_grows Codec.json_lawful.writes (by simp) happend with
              ⟨texts, -, hobjects, hsome, hgrows⟩
            rcases hgrows.exists_beginsArray hobjects hsome hread with hnil | ⟨items, h⟩
            · exact absurd hnil hcut.content_ne_nil
            · exact (hnot items h).elim

end Appender
end History

end Reckoner
