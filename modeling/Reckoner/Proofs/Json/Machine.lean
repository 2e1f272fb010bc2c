import Mathlib.Data.List.Induction
import Reckoner.Json.Reader
import Reckoner.Proofs.Characters

/-!
# The reading machine

What the machine that reads JSON can do, said once, and what follows for the text it has taken.

* `Takes` — the machine goes from one state to another over a text;
* `Moves` — the ways it can take one character;
* `Sound` — what holds of every state it comes to;
* `Awaits` — it is at the end of an item of the outermost array;
* `awaits_of_closing` — so it is before the last closing bracket of an array;
* `Awaits.endsVisibly` — and what it took there ends with an ASCII character and blanks.
-/

namespace Reckoner.Json.Reader

open Text (isDigit)

/-! ## Texts -/

/-- The machine goes from one state to the other over the text. -/
def Takes (s : State) (cs : List Char) (s' : State) : Prop :=
  cs.foldlM step s = some s'

@[simp] theorem takes_nil {s s' : State} : Takes s [] s' ↔ s = s' := by
  simp [Takes]

theorem takes_cons {s s' : State} {c : Char} {cs : List Char} :
    Takes s (c :: cs) s' ↔ ∃ mid, step s c = some mid ∧ Takes mid cs s' := by
  simp [Takes, Option.bind_eq_some_iff]

theorem takes_append {s s' : State} {cs ds : List Char} :
    Takes s (cs ++ ds) s' ↔ ∃ mid, Takes s cs mid ∧ Takes mid ds s' := by
  simp [Takes, Option.bind_eq_some_iff]

theorem Takes.append {s mid s' : State} {cs ds : List Char} (h : Takes s cs mid)
    (h' : Takes mid ds s') : Takes s (cs ++ ds) s' :=
  takes_append.2 ⟨mid, h, h'⟩

theorem Takes.cons {s mid s' : State} {c : Char} {cs : List Char} (h : step s c = some mid)
    (h' : Takes mid cs s') : Takes s (c :: cs) s' :=
  takes_cons.2 ⟨mid, h, h'⟩

@[simp] theorem takes_singleton {s s' : State} {c : Char} :
    Takes s [c] s' ↔ step s c = some s' := by
  simp [takes_cons]

theorem read?_eq_some_iff {cs : List Char} {v : Json} :
    read? cs = some v ↔ ∃ s, Takes {} cs s ∧ finish? s = some v := by
  simp [read?, Takes, Option.bind_eq_some_iff]

/-- What every step over some characters keeps is kept over texts of them. -/
theorem Takes.keeps {P : State → Prop} {Q : Char → Prop}
    (hstep : ∀ s c s', Q c → P s → step s c = some s' → P s') {s s' : State} {cs : List Char}
    (hcs : ∀ c ∈ cs, Q c) (h : Takes s cs s') (hs : P s) : P s' := by
  induction cs generalizing s with
  | nil => exact takes_nil.1 h ▸ hs
  | cons c cs ih =>
      rcases takes_cons.1 h with ⟨mid, hmid, hrest⟩
      have ⟨hc, hcs⟩ := List.forall_mem_cons.1 hcs
      exact ih hcs hrest (hstep s c mid hc hs hmid)

/-! ## Steps -/

/-- The value that is complete if a blank or a delimiter follows. -/
def Mode.complete? : Mode → Option Json
  | .after v => some v
  | .number read =>
    if isNumber read.reverse then some (.number (String.ofList read.reverse)) else none
  | _ => none

/-- A value may begin. -/
def Mode.MayBegin : Mode → Prop
  | .value | .firstItem => True
  | _ => False

/-- Between the parts of a document, but not after a value. -/
def Mode.IsBetween : Mode → Prop
  | .value | .firstItem | .key .. | .colon .. => True
  | _ => False

/-- The beginnings of values that are neither arrays nor objects. -/
inductive BeginsScalar : Char → Mode → Prop where
  | string : BeginsScalar '"' (.string none [])
  | word {c : Char} {rest : List Char} {v : Json} :
      (∀ d ∈ c :: rest, 'a' ≤ d ∧ d ≤ 'z') → BeginsScalar c (.word rest v)
  | number {c : Char} : isDigit c ∨ c = '-' → BeginsScalar c (.number [c])

/-- A character inside a string, a number or a word, which does not end a string. -/
inductive GoesOn : Mode → Char → Mode → Prop where
  | plain {fields : Option (List (String × Json))} {read : List Piece} {c : Char} :
      GoesOn (.string fields read) c (.string fields (.char c :: read))
  | backslash {fields : Option (List (String × Json))} {read : List Piece} :
      GoesOn (.string fields read) '\\' (.escape fields read)
  | codeBegins {fields : Option (List (String × Json))} {read : List Piece} :
      GoesOn (.escape fields read) 'u' (.code fields read 4 0)
  | shortEscape {fields : Option (List (String × Json))} {read : List Piece} {c e : Char} :
      shortEscape? c = some e →
        GoesOn (.escape fields read) c (.string fields (.escape e.toNat :: read))
  | codeEnds {fields : Option (List (String × Json))} {read : List Piece} {left n d : Nat}
      {c : Char} : Fraction.hexValue? c = some d →
        GoesOn (.code fields read left n) c (.string fields (.escape (n * 16 + d) :: read))
  | code {fields : Option (List (String × Json))} {read : List Piece} {left n d : Nat}
      {c : Char} : Fraction.hexValue? c = some d →
        GoesOn (.code fields read left n) c (.code fields read (left - 1) (n * 16 + d))
  | number {read : List Char} {c : Char} :
      isNumberChar c → GoesOn (.number read) c (.number (c :: read))
  | word {c d : Char} {more : List Char} {v : Json} :
      GoesOn (.word (c :: d :: more) v) c (.word (d :: more) v)
  | wordEnds {c : Char} {v : Json} : GoesOn (.word [c] v) c (.after v)

/-- The ways to take one character. -/
inductive Moves : State → Char → State → Prop where
  | blank {mode : Mode} {frames : List Frame} {room : Nat} {c : Char} :
      isSpace c → mode.IsBetween → Moves ⟨mode, frames, room⟩ c ⟨mode, frames, room⟩
  | settle {mode : Mode} {frames : List Frame} {room : Nat} {c : Char} {v : Json} :
      isSpace c → mode.complete? = some v → Moves ⟨mode, frames, room⟩ c ⟨.after v, frames, room⟩
  | openObject {mode : Mode} {frames : List Frame} {room : Nat} :
      mode.MayBegin → Moves ⟨mode, frames, room + 1⟩ '\x7b' ⟨.key [] true, frames, room⟩
  | openArray {mode : Mode} {frames : List Frame} {room : Nat} :
      mode.MayBegin →
        Moves ⟨mode, frames, room + 1⟩ '[' ⟨.firstItem, .array [] :: frames, room⟩
  | scalar {mode mode' : Mode} {frames : List Frame} {room : Nat} {c : Char} :
      mode.MayBegin → BeginsScalar c mode' →
        Moves ⟨mode, frames, room⟩ c ⟨mode', frames, room⟩
  | closeEmptyArray {frames : List Frame} {room : Nat} :
      Moves ⟨.firstItem, frames, room⟩ ']' ⟨.after (.array []), frames.drop 1, room + 1⟩
  | beginKey {fields : List (String × Json)} {mayEnd : Bool} {frames : List Frame} {room : Nat} :
      Moves ⟨.key fields mayEnd, frames, room⟩ '"' ⟨.string (some fields) [], frames, room⟩
  | closeEmptyObject {fields : List (String × Json)} {mayEnd : Bool} {frames : List Frame}
      {room : Nat} :
      Moves ⟨.key fields mayEnd, frames, room⟩ '\x7d' ⟨.after (.object []), frames, room + 1⟩
  | colon {fields : List (String × Json)} {name : String} {frames : List Frame} {room : Nat} :
      Moves ⟨.colon fields name, frames, room⟩ ':' ⟨.value, .object fields name :: frames, room⟩
  | nextItem {mode : Mode} {v : Json} {items : List Json} {frames : List Frame} {room : Nat} :
      mode.complete? = some v →
        Moves ⟨mode, .array items :: frames, room⟩ ','
          ⟨.value, .array (v :: items) :: frames, room⟩
  | closeArray {mode : Mode} {v : Json} {items : List Json} {frames : List Frame} {room : Nat} :
      mode.complete? = some v →
        Moves ⟨mode, .array items :: frames, room⟩ ']'
          ⟨.after (.array (v :: items).reverse), frames, room + 1⟩
  | nextField {mode : Mode} {v : Json} {fields : List (String × Json)} {key : String}
      {frames : List Frame} {room : Nat} :
      mode.complete? = some v →
        Moves ⟨mode, .object fields key :: frames, room⟩ ','
          ⟨.key ((key, v) :: fields) false, frames, room⟩
  | closeObject {mode : Mode} {v : Json} {fields : List (String × Json)} {key : String}
      {frames : List Frame} {room : Nat} :
      mode.complete? = some v →
        Moves ⟨mode, .object fields key :: frames, room⟩ '\x7d'
          ⟨.after (.object ((key, v) :: fields).reverse), frames, room + 1⟩
  | endValue {read : List Piece} {text : String} {frames : List Frame} {room : Nat} :
      Moves ⟨.string none read, frames, room⟩ '"' ⟨.after (.string text), frames, room⟩
  | endKey {fields : List (String × Json)} {read : List Piece} {text : String}
      {frames : List Frame} {room : Nat} :
      Moves ⟨.string (some fields) read, frames, room⟩ '"' ⟨.colon fields text, frames, room⟩
  | goesOn {mode mode' : Mode} {c : Char} {frames : List Frame} {room : Nat} :
      GoesOn mode c mode' → Moves ⟨mode, frames, room⟩ c ⟨mode', frames, room⟩

theorem moves_of_beginValue {mode : Mode} (hmode : mode.MayBegin) {frames : List Frame}
    {room : Nat} {c : Char} {s' : State} (h : beginValue ⟨mode, frames, room⟩ c = some s') :
    Moves ⟨mode, frames, room⟩ c s' := by
  unfold beginValue at h
  split at h
  · cases room with
    | zero => cases h
    | succ room => cases h; exact .openObject hmode
  · cases room with
    | zero => cases h
    | succ room => cases h; exact .openArray hmode
  · cases h; exact .scalar hmode .string
  · cases h; exact .scalar hmode (.word (by simp))
  · cases h; exact .scalar hmode (.word (by simp))
  · cases h; exact .scalar hmode (.word (by simp))
  · split at h
    · next hc =>
      cases h
      exact .scalar hmode (.number (by simpa using hc))
    · cases h

theorem moves_of_afterValue {mode : Mode} {v : Json} (hmode : mode.complete? = some v)
    {frames : List Frame} {room : Nat} {c : Char} {s' : State}
    (h : afterValue ⟨mode, frames, room⟩ v c = some s') : Moves ⟨mode, frames, room⟩ c s' := by
  unfold afterValue at h
  split at h
  · next hc => cases h; exact .settle hc hmode
  split at h
  · next items outer hframes _ => cases hframes; cases h; exact .nextItem hmode
  · next items outer hframes _ => cases hframes; cases h; exact .closeArray hmode
  · next fields key outer hframes _ => cases hframes; cases h; exact .nextField hmode
  · next fields key outer hframes _ => cases hframes; cases h; exact .closeObject hmode
  · cases h

/-- A step is one of the moves. -/
theorem moves_of_step {s s' : State} {c : Char} (h : step s c = some s') : Moves s c s' := by
  rcases s with ⟨mode, frames, room⟩
  unfold step at h
  cases mode with
  | value =>
      dsimp only at h
      split at h
      · next hc => cases h; exact .blank hc trivial
      · exact moves_of_beginValue (show Mode.MayBegin .value from trivial) h
  | firstItem =>
      dsimp only at h
      split at h
      · next hc => cases h; exact .blank hc trivial
      split at h
      · next hc =>
        cases eq_of_beq hc
        cases h
        exact .closeEmptyArray
      · exact moves_of_beginValue (show Mode.MayBegin .firstItem from trivial) h
  | key fields mayEnd =>
      dsimp only at h
      split at h
      · next hc => cases h; exact .blank hc trivial
      split at h
      · next hc =>
        cases eq_of_beq hc
        cases h
        exact .beginKey
      split at h
      · next hc =>
        cases eq_of_beq (Bool.and_eq_true_iff.1 hc).2
        cases h
        exact .closeEmptyObject
      · cases h
  | colon fields name =>
      dsimp only at h
      split at h
      · next hc => cases h; exact .blank hc trivial
      split at h
      · next hc =>
        cases eq_of_beq hc
        cases h
        exact .colon
      · cases h
  | after v => exact moves_of_afterValue rfl h
  | string fields read =>
      dsimp only at h
      split at h
      · next hc =>
        cases eq_of_beq hc
        cases h
        cases fields with
        | none => exact .endValue
        | some fields => exact .endKey
      split at h
      · next hc =>
        cases eq_of_beq hc
        cases h
        exact .goesOn .backslash
      split at h
      · cases h
      · cases h
        exact .goesOn .plain
  | escape fields read =>
      dsimp only at h
      split at h
      · next hc =>
        cases eq_of_beq hc
        cases h
        exact .goesOn .codeBegins
      · rcases Option.map_eq_some_iff.1 h with ⟨e, he, rfl⟩
        exact .goesOn (.shortEscape he)
  | code fields read left n =>
      rcases Option.map_eq_some_iff.1 h with ⟨d, hd, rfl⟩
      dsimp only
      split
      · exact .goesOn (.codeEnds hd)
      · exact .goesOn (.code hd)
  | number read =>
      dsimp only at h
      split at h
      · next hc => cases h; exact .goesOn (.number hc)
      split at h
      · next hnumber =>
        have hcomplete : Mode.complete? (.number read) = _ := if_pos hnumber
        exact moves_of_afterValue hcomplete h
      · cases h
  | word rest v =>
      dsimp only at h
      split at h
      · cases h
      · next d more =>
        split at h
        · next hc =>
          cases eq_of_beq hc
          cases h
          cases more with
          | nil => exact .goesOn .wordEnds
          | cons d more => exact .goesOn .word
        · cases h

/-! ## What holds of every state -/

/-- The objects that are open without a frame: an object has none while a field name is read. -/
def Mode.pending : Mode → Nat
  | .key .. | .colon .. => 1
  | .string fields _ | .escape fields _ | .code fields .. => fields.toList.length
  | _ => 0

theorem Mode.pending_of_complete {mode : Mode} {v : Json} (h : mode.complete? = some v) :
    mode.pending = 0 := by
  cases mode with
  | after v | number read => rfl
  | _ => cases h

theorem Mode.pending_of_mayBegin {mode : Mode} (h : mode.MayBegin) : mode.pending = 0 := by
  cases mode with
  | value | firstItem => rfl
  | _ => cases h

theorem BeginsScalar.pending {c : Char} {mode : Mode} (h : BeginsScalar c mode) :
    mode.pending = 0 := by
  cases h <;> rfl

theorem GoesOn.pending {c : Char} {mode mode' : Mode} (h : GoesOn mode c mode') :
    mode'.pending = mode.pending := by
  cases h <;> rfl

/-- An array that was just opened has nothing in it, and what is left of a word is letters. -/
def Mode.Fits (frames : List Frame) : Mode → Prop
  | .firstItem => ∃ outer, frames = .array [] :: outer
  | .word rest _ => ∀ d ∈ rest, 'a' ≤ d ∧ d ≤ 'z'
  | _ => True

/-- What holds of every state the machine comes to. -/
structure Sound (s : State) : Prop where
  /-- All that is open takes its share of the room. -/
  room : s.room + s.frames.length + s.mode.pending = 10000
  mode : s.mode.Fits s.frames

theorem sound_start : Sound {} :=
  ⟨rfl, trivial⟩

theorem Moves.sound {s s' : State} {c : Char} (h : Moves s c s') (hs : Sound s) : Sound s' := by
  have hroom := hs.room
  have hfits := hs.mode
  cases h with
  | blank _ _ => exact hs
  | settle _ hmode =>
      rw [Mode.pending_of_complete hmode] at hroom
      exact ⟨hroom, trivial⟩
  | openObject hmode =>
      simp only [Mode.pending_of_mayBegin hmode] at hroom
      exact ⟨by simp only [Mode.pending]; omega, trivial⟩
  | openArray hmode =>
      simp only [Mode.pending_of_mayBegin hmode] at hroom
      exact ⟨by simp only [Mode.pending, List.length_cons]; omega, _, rfl⟩
  | scalar hmode hscalar =>
      rw [Mode.pending_of_mayBegin hmode] at hroom
      refine ⟨by rw [hscalar.pending]; exact hroom, ?_⟩
      cases hscalar with
      | word hletters => exact (List.forall_mem_cons.1 hletters).2
      | string | number _ => trivial
  | closeEmptyArray =>
      rcases hfits with ⟨outer, hframes⟩
      subst hframes
      simp only [Mode.pending, List.length_cons] at hroom
      exact ⟨by simp only [Mode.pending, List.drop_succ_cons, List.drop_zero]; omega, trivial⟩
  | beginKey => exact ⟨hroom, trivial⟩
  | closeEmptyObject =>
      simp only [Mode.pending] at hroom
      exact ⟨by simp only [Mode.pending]; omega, trivial⟩
  | colon =>
      simp only [Mode.pending] at hroom
      exact ⟨by simp only [Mode.pending, List.length_cons]; omega, trivial⟩
  | nextItem hmode =>
      rw [Mode.pending_of_complete hmode] at hroom
      exact ⟨hroom, trivial⟩
  | closeArray hmode | closeObject hmode =>
      rw [Mode.pending_of_complete hmode] at hroom
      simp only [List.length_cons] at hroom
      exact ⟨by simp only [Mode.pending]; omega, trivial⟩
  | nextField hmode =>
      rw [Mode.pending_of_complete hmode] at hroom
      simp only [List.length_cons] at hroom
      exact ⟨by simp only [Mode.pending]; omega, trivial⟩
  | endValue => exact ⟨hroom, trivial⟩
  | endKey => exact ⟨hroom, trivial⟩
  | goesOn hgoes =>
      refine ⟨by rw [hgoes.pending]; exact hroom, ?_⟩
      cases hgoes with
      | word => exact (List.forall_mem_cons.1 hfits).2
      | _ => trivial

theorem Takes.sound {cs : List Char} {s : State} (h : Takes {} cs s) : Sound s :=
  h.keeps (fun _ _ _ _ hs hstep => (moves_of_step hstep).sound hs) (fun _ _ => trivial) sound_start

/-! ## The last closing bracket -/

/-- Outside all arrays and objects, a document that will be neither an array nor null. -/
def Mode.IsOther : Mode → Prop
  | .value | .firstItem | .word .. | .after .null | .after (.array _) => False
  | _ => True

theorem Mode.IsOther.after {mode : Mode} {v : Json} (h : mode.IsOther)
    (hv : mode.complete? = some v) : Mode.IsOther (.after v) := by
  cases mode with
  | after w =>
      cases hv
      exact h
  | number read =>
      rw [Mode.complete?] at hv
      split at hv
      · cases hv
        trivial
      · cases hv
  | _ => cases hv

/-- Without a closing bracket the document stays what it will be. -/
theorem Moves.isOther {s s' : State} {c : Char} (h : Moves s c s') (hc : c ≠ ']')
    (hs : s.frames = [] → s.mode.IsOther) : s'.frames = [] → s'.mode.IsOther := by
  intro hframes
  cases h with
  | blank _ _ => exact hs hframes
  | settle _ hmode => exact (hs hframes).after hmode
  | openObject _ | beginKey | closeEmptyObject | nextField _ | closeObject _ | endValue
  | endKey => trivial
  | openArray _ | colon | nextItem _ => cases hframes
  | @scalar mode _ _ _ _ hmode _ =>
      cases mode with
      | value | firstItem => exact (hs hframes).elim
      | _ => cases hmode
  | closeEmptyArray | closeArray _ => exact absurd rfl hc
  | goesOn hgoes =>
      cases hgoes with
      | word | wordEnds => exact (hs hframes).elim
      | _ => trivial

/-- The machine is in the outermost array, after its last item so far or right at its beginning. -/
structure Awaits (s : State) (items : List Json) : Prop where
  room : s.room = 9999
  last : (s.mode = .firstItem ∧ s.frames = [.array []] ∧ items = []) ∨
    ∃ v earlier, s.mode.complete? = some v ∧ s.frames = [.array earlier] ∧
      items = (v :: earlier).reverse

/-- A value that is complete stays as it is up to the end of the document. -/
theorem Takes.eq_of_after {v w : Json} {room : Nat} {cs : List Char} {s : State}
    (h : Takes ⟨.after v, [], room⟩ cs s) (hw : finish? s = some w) : w = v := by
  have hkeeps : s.mode = .after v ∧ s.frames = [] := by
    refine h.keeps (P := fun s => s.mode = .after v ∧ s.frames = []) (Q := fun _ => True) ?_
      (fun _ _ => trivial) ⟨rfl, rfl⟩
    rintro ⟨mode, frames, room⟩ c s' - ⟨rfl, rfl⟩ hstep
    cases moves_of_step hstep with
    | blank _ hmode => exact hmode.elim
    | settle _ hmode =>
        cases hmode
        exact ⟨rfl, rfl⟩
    | openObject hmode | openArray hmode | scalar hmode _ => exact hmode.elim
    | goesOn hgoes => cases hgoes
  rcases s with ⟨mode, frames, room⟩
  obtain ⟨rfl, rfl⟩ := hkeeps
  cases hw
  rfl

/-- Where the last closing bracket of an array stands, the machine is after its last item. -/
theorem awaits_of_closing {before behind : List Char} (hbehind : ']' ∉ behind) {v : Json}
    (hv : v = .null ∨ ∃ items, v = .array items)
    (h : read? (before ++ ']' :: behind) = some v) :
    ∃ items s, v = .array items ∧ Takes {} before s ∧ Awaits s items := by
  rcases read?_eq_some_iff.1 h with ⟨last, htakes, hfinish⟩
  rcases takes_append.1 htakes with ⟨s, hbefore, hrest⟩
  rcases takes_cons.1 hrest with ⟨mid, hmid, hafter⟩
  -- If the bracket does not close the outermost array, the document is not an array.
  have hother (hmid : mid.frames = [] → mid.mode.IsOther) : False := by
    have hlast : last.frames = [] → last.mode.IsOther :=
      hafter.keeps (P := fun s => s.frames = [] → s.mode.IsOther) (Q := (· ≠ ']'))
        (fun _ _ _ hc hs hstep => (moves_of_step hstep).isOther hc hs)
        (fun c hc heq => hbehind (heq ▸ hc)) hmid
    rcases last with ⟨mode, frames, room⟩
    unfold finish? at hfinish
    split at hfinish
    · next w hmode hframes =>
      cases hfinish
      have hw := hlast hframes
      rw [show mode = .after v from hmode] at hw
      rcases hv with rfl | ⟨items, rfl⟩ <;> exact hw
    · split at hfinish
      · cases hfinish
        rcases hv with hv | ⟨items, hv⟩ <;> cases hv
      · cases hfinish
    · cases hfinish
  cases moves_of_step hmid with
  | blank hc _ => exact absurd hc (by decide)
  | settle hc _ => exact absurd hc (by decide)
  | scalar _ hscalar =>
      cases hscalar with
      | word hletters => exact absurd (List.forall_mem_cons.1 hletters).1 (by decide)
      | number hc => exact absurd hc (by decide)
  | closeEmptyArray =>
      have ⟨hroom, outer, hframes⟩ := hbefore.sound
      subst hframes
      cases outer with
      | nil =>
          refine ⟨[], _, hafter.eq_of_after hfinish, hbefore, ?_, .inl ⟨rfl, rfl, rfl⟩⟩
          simp only [Mode.pending, List.length_cons, List.length_nil] at hroom ⊢
          omega
      | cons frame outer => exact (hother (by simp)).elim
  | @closeArray _ _ items outer _ hmode =>
      have hroom := hbefore.sound.room
      cases outer with
      | nil =>
          refine ⟨_, _, hafter.eq_of_after hfinish, hbefore, ?_, .inr ⟨_, _, hmode, rfl, rfl⟩⟩
          simp only [Mode.pending_of_complete hmode, List.length_cons, List.length_nil] at hroom ⊢
          omega
      | cons frame outer => exact (hother (by simp)).elim
  | goesOn hgoes =>
      refine (hother fun _ => ?_).elim
      cases hgoes with
      | word => exact absurd (List.forall_mem_cons.1 hbefore.sound.mode).1 (by decide)
      | wordEnds => exact absurd (List.forall_mem_cons.1 hbefore.sound.mode).1 (by decide)
      | _ => trivial

/-! ## The end of an item -/

theorem Awaits.items_eq_nil_iff {s : State} {items : List Json} (h : Awaits s items) :
    items = [] ↔ s.mode = .firstItem := by
  rcases h.last with ⟨hmode, -, rfl⟩ | ⟨v, earlier, hmode, -, rfl⟩
  · simp [hmode]
  · have hne : s.mode ≠ .firstItem := by
      intro hfirst
      rw [hfirst] at hmode
      cases hmode
    simp [hne]

theorem Awaits.mode_cases {s : State} {items : List Json} (h : Awaits s items) :
    s.mode = .firstItem ∨ ∃ v, s.mode.complete? = some v := by
  rcases h.last with ⟨hmode, -⟩ | ⟨v, earlier, hmode, -⟩
  · exact .inl hmode
  · exact .inr ⟨v, hmode⟩

/-- The character is in ASCII, and neither a control character nor a blank. -/
def IsVisible (c : Char) : Prop :=
  32 < c.toNat ∧ c.toNat < 127

instance (c : Char) : Decidable (IsVisible c) :=
  inferInstanceAs (Decidable (_ ∧ _))

theorem isVisible_of_letter {c : Char} (h : 'a' ≤ c ∧ c ≤ 'z') : IsVisible c := by
  have hlow : 97 ≤ c.toNat := UInt32.le_iff_toNat_le.1 h.1
  have hhigh : c.toNat ≤ 122 := UInt32.le_iff_toNat_le.1 h.2
  exact ⟨by omega, by omega⟩

theorem isVisible_of_isNumberChar {c : Char} (h : isNumberChar c) : IsVisible c ∧ c ≠ '[' := by
  simp only [isNumberChar, Bool.or_eq_true, beq_iff_eq] at h
  rcases h with ((((h | rfl) | rfl) | rfl) | rfl) | rfl
  · have hrange := Text.isDigit_iff.1 h
    refine ⟨⟨by omega, by omega⟩, ?_⟩
    rintro rfl
    cases h
  all_goals decide

/-- The text goes back over blanks to an ASCII character, which is an opening bracket only if there
are no items, and the machine is at the end of the items there already. -/
def EndsVisibly (cs : List Char) (items : List Json) : Prop :=
  ∃ init c blanks s, cs = init ++ c :: blanks ∧ (∀ b ∈ blanks, isSpace b) ∧ IsVisible c ∧
    (c = '[' ↔ items = []) ∧ Takes {} (init ++ [c]) s ∧ Awaits s items

theorem Awaits.endsVisibly {cs : List Char} {s : State} {items : List Json} (h : Takes {} cs s)
    (hs : Awaits s items) : EndsVisibly cs items := by
  induction cs using List.reverseRecOn generalizing s with
  | nil =>
      rw [← takes_nil.1 h] at hs
      exact absurd hs.room (by decide)
  | append_singleton init d ih =>
      rcases takes_append.1 h with ⟨mid, hmid, hd⟩
      have hhere (hvisible : IsVisible d) (hd : d = '[' ↔ items = []) :
          EndsVisibly (init ++ [d]) items :=
        ⟨init, d, [], s, rfl, by simp, hvisible, hd, h, hs⟩
      have hback (hspace : isSpace d) (hmid' : Awaits mid items) :
          EndsVisibly (init ++ [d]) items := by
        rcases ih hmid hmid' with ⟨init', c, blanks, s', rfl, hblanks, hc⟩
        refine ⟨init', c, blanks ++ [d], s', by simp, ?_, hc⟩
        exact List.forall_mem_append.2 ⟨hblanks, List.forall_mem_singleton.2 hspace⟩
      have hmode := hs.mode_cases
      have hitems := hs.items_eq_nil_iff
      cases moves_of_step (takes_singleton.1 hd) with
      | blank hspace _ => exact hback hspace hs
      | settle hspace hv =>
          refine hback hspace ⟨hs.room, ?_⟩
          rcases hs.last with ⟨hfirst, -⟩ | ⟨w, earlier, hw, hlast⟩
          · cases hfirst
          · cases hw
            exact .inr ⟨_, earlier, hv, hlast⟩
      | openArray _ => exact hhere (by decide) (by simp [hitems])
      | closeEmptyArray | closeEmptyObject | closeArray _ | closeObject _ | endValue =>
          exact hhere (by decide) (by simp [hitems])
      | openObject _ | beginKey | colon | nextItem _ | nextField _ | endKey =>
          rcases hmode with hmode | ⟨v, hmode⟩ <;> cases hmode
      | scalar _ hscalar =>
          cases hscalar with
          | number hc =>
              have ⟨hvisible, hne⟩ : IsVisible d ∧ d ≠ '[' :=
                isVisible_of_isNumberChar (by rcases hc with hc | rfl <;> simp [isNumberChar, *])
              exact hhere hvisible (by simp [hitems, hne])
          | string | word _ => rcases hmode with hmode | ⟨v, hmode⟩ <;> cases hmode
      | goesOn hgoes =>
          cases hgoes with
          | number hc =>
              have ⟨hvisible, hne⟩ := isVisible_of_isNumberChar hc
              exact hhere hvisible (by simp [hitems, hne])
          | wordEnds =>
              have hletter := hmid.sound.mode d (by simp)
              have hne : d ≠ '[' := by
                rintro rfl
                exact absurd hletter (by decide)
              exact hhere (isVisible_of_letter hletter) (by simp [hitems, hne])
          | _ => rcases hmode with hmode | ⟨v, hmode⟩ <;> cases hmode

end Reckoner.Json.Reader
