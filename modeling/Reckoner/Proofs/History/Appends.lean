import Reckoner.Proofs.Files
import Reckoner.Proofs.History.Content

/-!
# A history over many calls

The file of an open history holds the entries that it held before and those of the calls that
succeeded, in order. A call cuts the file off and writes at its end, in two steps; whatever can fail
fails before them, so that a call that fails leaves the files as they were. Once a call has added
entries, only an entry that cannot be written makes a call fail. All of this is over any codec that
obeys the laws.

* `Appender.perform`, `Appender.run_perform` — the steps of a call, and that they are the call;
* `Appender.attempt`, `Appender.accepted` — the files and the entries after calls;
* `Appender.Holds` — what stands at the path of an open history;
* `Holds.append`, `Holds.calls` — it stays so over one call and over many;
* `Appender.appendEach` — entries that are added one by one;
* `Appender.calls_lose_nothing` — what is read after any calls.
-/

namespace Reckoner.History

open Text (encodeText)

namespace Appender

/-! ## Steps -/

/-- Steps on files, of which those before a failure are not taken back. -/
abbrev Steps := ExceptT Error (StateM Files)

/-- The content of the file. -/
def content (a : Appender) : Steps Content :=
  return ((← get).get? a.file).getD []

/-- Cuts the file off behind its first `size` bytes. -/
def truncate (a : Appender) (size : Nat) : Steps Unit := do
  let content ← a.content
  modify (·.set a.file (content.take size))

/-- Writes at the end of the file. -/
def write (a : Appender) (bytes : Content) : Steps Unit := do
  let content ← a.content
  modify (·.set a.file (content ++ bytes))

/-- Adds a text to the file: it is cut off before its closing bracket, and then the text is written.
-/
def addText (a : Appender) (text : String) : Steps Unit := do
  let content ← a.content
  if content.isEmpty then a.write (encodeText ("[\n  " ++ text))
  else
    let (kept, last) ← cutClosing content
    a.truncate kept.length
    a.write (encodeText (separator last ++ text))

/-- Adds entries step by step. -/
def perform (a : Appender) (codec : Codec) (new : List Entry) : Steps Unit :=
  if new.isEmpty then return
  else do
    let texts ← entryTexts codec new
    if a.isOpen then a.addText (closedText texts) else throw (.closed "stat" a.path)

theorem run_write (a : Appender) (bytes : Content) (files : Files) :
    (a.write bytes).run files =
      (.ok (), files.set a.file ((files.get? a.file).getD [] ++ bytes)) :=
  rfl

/-- No step fails once the file is cut off. -/
theorem run_addText (a : Appender) (text : String) (files : Files) :
    (a.addText text).run files =
      match appendText ((files.get? a.file).getD []) text with
      | .ok content => (.ok (), files.set a.file content)
      | .error e => (.error e, files) := by
  -- The steps read the file anew each time; the first reading is named, and the others follow it.
  generalize hcontent : (files.get? a.file).getD [] = content
  have hsteps : (a.addText text).run files =
      (if content.isEmpty then a.write (encodeText ("[\n  " ++ text))
        else do
          let (kept, last) ← cutClosing content
          a.truncate kept.length
          a.write (encodeText (separator last ++ text)) : Steps Unit).run files :=
    hcontent ▸ rfl
  rw [hsteps, appendText]
  split
  · next hempty =>
    obtain rfl := List.isEmpty_iff.1 hempty
    rw [run_write, hcontent]
    rfl
  · cases hcut : cutClosing content with
    | error e => rfl
    | ok cut =>
        rcases cut with ⟨kept, last⟩
        change (a.write _).run (files.set a.file (((files.get? a.file).getD []).take _)) = _
        rw [hcontent, take_of_cutClosing hcut, run_write, Bindings.set_set, Bindings.get?_set,
          if_pos rfl]
        rfl

theorem run_perform (a : Appender) (codec : Codec) (new : List Entry) (files : Files) :
    (a.perform codec new).run files =
      match a.append codec files new with
      | .ok later => (.ok (), later)
      | .error e => (.error e, files) := by
  unfold perform Appender.append
  split
  · rfl
  cases entryTexts codec new with
  | error e => rfl
  | ok texts =>
      by_cases hopen : a.isOpen
      · simp only [hopen, if_true]
        refine (run_addText a (closedText texts) files).trans ?_
        cases appendText ((files.get? a.file).getD []) (closedText texts) <;> rfl
      · simp only [hopen]
        rfl

/-! ## Calls -/

/-- The files after a call, whether it succeeds or fails. -/
def attempt (a : Appender) (codec : Codec) (files : Files) (new : List Entry) : Files :=
  ((a.perform codec new).run files).2

/-- The entries of the calls that succeed, in order. -/
def accepted (a : Appender) (codec : Codec) : Files → List (List Entry) → List Entry
  | _, [] => []
  | files, new :: calls =>
    match a.append codec files new with
    | .ok later => new ++ accepted a codec later calls
    | .error _ => accepted a codec files calls

section

variable {a : Appender} {codec : Codec} {files later : Files} {new : List Entry}

theorem attempt_of_ok (h : a.append codec files new = .ok later) :
    a.attempt codec files new = later := by
  rw [attempt, run_perform, h]

theorem attempt_of_error {error : Error} (h : a.append codec files new = .error error) :
    a.attempt codec files new = files := by
  rw [attempt, run_perform, h]

end

/-- The path of the open history leads to its file, which has this content and these entries. -/
structure Holds (a : Appender) (codec : Codec) (files : Files) (content : Content)
    (es : List Entry) : Prop where
  isOpen : a.isOpen
  located : files.locate a.path = .ok (.file a.file content)
  entries : entries? codec content = some es

/-- What is opened is a file, which was there or is empty now. -/
theorem located_of_start {files opened : Files} {path : String} {a : Appender}
    (hstart : start files path = .ok (a, opened)) :
    a.path = path ∧ a.isOpen ∧ ∃ content, opened.locate path = .ok (.file a.file content) ∧
      (files.locate path = .ok (.file a.file content) ∨
        files.locate path = .ok (.vacant a.file) ∧ content = []) := by
  unfold start at hstart
  split at hstart
  · next file content hlocated =>
    cases hcheck : checkOpening content with
    | error e =>
        rw [hcheck] at hstart
        cases hstart
    | ok =>
        rw [hcheck] at hstart
        cases hstart
        exact ⟨rfl, rfl, content, hlocated, .inl hlocated⟩
  · next file hlocated =>
    cases hstart
    exact ⟨rfl, rfl, [], Files.locate_set hlocated rfl [], .inr ⟨hlocated, rfl⟩⟩
  · cases hstart
  · cases hstart

theorem holds_of_start {codec : Codec} {files opened : Files} {path : String} {a : Appender}
    {es : List Entry} (hstart : start files path = .ok (a, opened))
    (hread : read? codec files path = some es) :
    a.path = path ∧ ∃ content, a.Holds codec opened content es := by
  obtain ⟨rfl, hopen, content, hopened, hlocated⟩ := located_of_start hstart
  refine ⟨rfl, content, hopen, hopened, ?_⟩
  unfold read? at hread
  rcases hlocated with hlocated | ⟨hlocated, rfl⟩
  · rw [hlocated] at hread
    exact hread
  · rw [hlocated] at hread
    exact hread

/-- A call puts the content with the entries added in its place. -/
theorem append_of_located {a : Appender} {files : Files} {content : Content} (hopen : a.isOpen)
    (hlocated : files.locate a.path = .ok (.file a.file content)) (codec : Codec)
    (new : List Entry) :
    a.append codec files new =
      (History.append codec content new).map fun content' => files.set a.file content' := by
  have hget : files.get? a.file = some content := Files.get?_of_locate hlocated
  unfold Appender.append History.append
  split
  · exact congrArg Except.ok (Bindings.set_eq_self hget).symm
  · split
    · rfl
    · rw [hget]
      rfl

namespace Holds

variable {a : Appender} {codec : Codec} {object : Entry → Json} {ofItem? : Json → Option Entry}
  {files later : Files} {content content' : Content} {es new : List Entry}

theorem read?_eq (h : a.Holds codec files content es) : read? codec files a.path = some es := by
  rw [read?, h.located]
  exact h.entries

theorem append_eq_ok_iff (h : a.Holds codec files content es) :
    a.append codec files new = .ok later ↔
      ∃ content', History.append codec content new = .ok content' ∧
        files.set a.file content' = later := by
  rw [append_of_located h.isOpen h.located]
  cases History.append codec content new with
  | error e => simp [Except.map]
  | ok content' => simp [Except.map]

theorem append_eq_error (h : a.Holds codec files content es) {error : Error}
    (hfails : a.append codec files new = .error error) :
    History.append codec content new = .error error := by
  rw [append_of_located h.isOpen h.located] at hfails
  cases happend : History.append codec content new with
  | error error' =>
      rw [happend] at hfails
      cases hfails
      rfl
  | ok content' =>
      rw [happend] at hfails
      cases hfails

theorem append (h : a.Holds codec files content es) (hlawful : codec.Lawful object ofItem?)
    (happend : History.append codec content new = .ok content') :
    a.Holds codec (files.set a.file content') content' (es ++ new) :=
  ⟨h.isOpen, Files.locate_set h.located rfl content', entries?_append hlawful h.entries happend⟩

/-- Over any calls the file holds the entries of those that succeed, and it takes what can be
written as soon as one of them added something. -/
theorem calls (h : a.Holds codec files content es) (hlawful : codec.Lawful object ofItem?)
    (calls : List (List Entry)) :
    ∃ content', a.Holds codec (calls.foldl (a.attempt codec) files) content'
        (es ++ a.accepted codec files calls) ∧
      (IsReady codec content ∨ a.accepted codec files calls ≠ [] → IsReady codec content') := by
  -- Along the calls the content is ready, or nothing has been added so far.
  induction calls generalizing files content es with
  | nil => exact ⟨content, by simpa [accepted] using h, by simp [accepted]⟩
  | cons new calls ih =>
      rw [List.foldl_cons, accepted]
      cases happend : a.append codec files new with
      | error e =>
          rw [attempt_of_error happend]
          exact ih h
      | ok later =>
          rw [attempt_of_ok happend]
          rcases h.append_eq_ok_iff.1 happend with ⟨content₁, hcontent, rfl⟩
          rcases ih (h.append hlawful hcontent) with ⟨content', hholds, hready⟩
          refine ⟨content', by simpa using hholds, fun hor => hready ?_⟩
          by_cases hne : new = []
          · subst hne
            cases hcontent
            simpa using hor
          · exact .inl (isReady_of_append hlawful.writes hne hcontent)

end Holds

/-! ## Entries one by one -/

section

variable {a : Appender} {codec : Codec} {object : Entry → Json} {ofItem? : Json → Option Entry}
  {files opened last : Files} {path : String} {es : List Entry}

/-- After any calls, those that succeeded and those that failed, a history is read as the entries it
had when it was opened and the entries of the calls that succeeded. The next call adds its entries
to these and touches no other file, or it fails, for an entry that has no text or a history that is
not valid, and changes nothing. It does not fail on entries that have texts if the history was
opened empty or an earlier call added entries. -/
theorem calls_lose_nothing (hlawful : codec.Lawful object ofItem?)
    (hstart : start files path = .ok (a, opened)) (hread : read? codec files path = some es)
    (calls : List (List Entry)) (new : List Entry) :
    let now := calls.foldl (a.attempt codec) opened
    let held := es ++ a.accepted codec opened calls
    read? codec now path = some held ∧
      (∀ later, a.append codec now new = .ok later →
        a.attempt codec now new = later ∧ read? codec later path = some (held ++ new) ∧
          ∀ name, name ≠ a.file → later.get? name = now.get? name) ∧
      (∀ error, a.append codec now new = .error error →
        ((∃ e ∈ new, ∃ reason, codec.marshal e = .error reason ∧ error = .unwritable reason) ∨
            error = .noClosing ∨ error = .nothingBeforeClosing) ∧
          a.attempt codec now new = now) ∧
      ((opened.get? a.file = some [] ∨ a.accepted codec opened calls ≠ []) →
        (∀ e ∈ new, ∃ text, codec.marshal e = .ok text) →
          ∃ later, a.append codec now new = .ok later) := by
  intro now held
  obtain ⟨rfl, content, hopened⟩ := holds_of_start hstart hread
  rcases hopened.calls hlawful calls with ⟨content', hnow, hready⟩
  refine ⟨hnow.read?_eq, fun later hlater => ?_, fun error herror => ?_, fun hany hnew => ?_⟩
  · rcases hnow.append_eq_ok_iff.1 hlater with ⟨content₁, hcontent, rfl⟩
    refine ⟨attempt_of_ok hlater, (hnow.append hlawful hcontent).read?_eq, fun name hname => ?_⟩
    rw [Bindings.get?_set, if_neg (Ne.symm hname)]
  · exact ⟨append_eq_error (hnow.append_eq_error herror), attempt_of_error herror⟩
  · have hempty : opened.get? a.file = some [] → IsReady codec content := by
      intro hget
      obtain rfl : [] = content :=
        Option.some.inj (hget.symm.trans (Files.get?_of_locate hopened.located))
      exact isReady_nil codec
    rcases hready (hany.imp_left hempty) new hnew with ⟨content₁, hcontent⟩
    exact ⟨_, hnow.append_eq_ok_iff.2 ⟨content₁, hcontent, rfl⟩⟩

end

/-- Brackets and quotes in the texts, and a call that fails between those that do not. -/
theorem calls_lose_nothing_bracket_text :
    let files : Files :=
      [("h.json", "[\x7b\"id\":\"]\"\x7d ]".toList.map fun c => UInt8.ofNat c.toNat)]
    let a : Appender := { path := "h.json" }
    let calls : List (List Entry) :=
      [[{ time := { offset := 1440 } }], [{ source := "]\"" }]]
    Codec.json.Lawful Entry.toJson Entry.ofJson? ∧
      start files "h.json" = .ok (a, files) ∧ read? .json files "h.json" = some [{ id := "]" }] ∧
      ∃ later, a.append .json (calls.foldl (a.attempt .json) files) [{ source := "[" }] =
          .ok later ∧
        read? .json later "h.json" =
          some [{ id := "]" }, { source := "]\"" }, { source := "[" }] := by
  intro files a calls
  have hstart : start files "h.json" = .ok (a, files) := rfl
  have hread : read? .json files "h.json" = some [{ id := "]" }] := rfl
  have haccepted : a.accepted .json files calls = [{ source := "]\"" }] := by
    have hfar : a.append .json files [{ time := { offset := 1440 } }] =
        .error (.unwritable Codec.farClock) := rfl
    have hok : (a.append .json files [{ source := "]\"" }]).isOk := by decide +zetaReduce
    cases hnear : a.append .json files [{ source := "]\"" }] with
    | error e =>
        rw [hnear] at hok
        cases hok
    | ok later => simp [calls, accepted, hfar, hnear]
  rcases calls_lose_nothing Codec.json_lawful hstart hread calls [{ source := "[" }] with
    ⟨-, hadds, -, htakes⟩
  rw [haccepted] at hadds htakes
  rcases htakes (.inr (by simp)) (List.forall_mem_singleton.2 ⟨_, rfl⟩) with ⟨later, hlater⟩
  exact ⟨Codec.json_lawful, hstart, hread, later, hlater, (hadds later hlater).2.1⟩

end Appender
end Reckoner.History
