import Mathlib.Data.Finmap
import Reckoner.Proofs.Frame

/-!
# Scopes in an arena

Scopes may be kept in one list, where each is found by its number and knows the number of the one
around it. A scope holds its quantities by name and apart from them the order of the names. Closing
a scope cuts the list off before it, and the next one opened takes its place.

Nothing in the list says that the numbers lead outwards, or that they lead anywhere: an operation
may fail for want of a slot, and looking a name up may never end. An arena that comes about by
opening, closing and changing scopes is the list of the frames of an environment, from the outermost
inwards, and each operation on it is the one on the environment.

* `Arena` — the slots and the number of the innermost scope;
* `Environment.arena` — the arena of an environment;
* `Arena.push_arena`, `Arena.pop_arena`, `Arena.set_arena`, `Arena.remove_arena` — what each change
  comes to;
* `Arena.lookup?_arena`, `Arena.depth?_arena` — the walk outwards from an open scope.
-/

namespace Reckoner

/-- A scope in the arena. -/
structure Slot where
  vars : Finmap fun _ : String => Quantity
  names : List String
  /-- The number of the scope around it; `-1` stands for none. -/
  parent : Int

namespace Slot

/-- A scope without names. -/
def fresh (parent : Int) : Slot :=
  ⟨∅, [], parent⟩

/-- Binds a name. A new one comes last. -/
def set (slot : Slot) (name : String) (q : Quantity) : Slot :=
  { slot with
    vars := slot.vars.insert name q
    names := if (slot.vars.lookup name).isSome then slot.names else slot.names ++ [name] }

/-- Unbinds a name. -/
def erase (slot : Slot) (name : String) : Slot :=
  { slot with
    vars := slot.vars.erase name
    names := slot.names.filter (· ≠ name) }

end Slot

/-- Scopes by number, and the number of the innermost one. -/
structure Arena where
  slots : List Slot
  current : Int

namespace Arena

/-- The slot of this number. -/
def slot? (a : Arena) (scope : Int) : Option Slot :=
  if scope < 0 then none else a.slots[scope.toNat]?

/-- The slot of this number replaced. -/
def setSlot (a : Arena) (scope : Int) (slot : Slot) : Arena :=
  { a with slots := a.slots.set scope.toNat slot }

/-- Opens a scope inside the innermost one. -/
def push (a : Arena) : Arena :=
  ⟨a.slots ++ [.fresh a.current], a.slots.length⟩

/-- One scope without names. -/
def empty : Arena :=
  push ⟨[], -1⟩

/-- Closes the innermost scope, unless there is none around it. -/
def pop (a : Arena) : Option (Except ScopeError Arena) := do
  let slot ← a.slot? a.current
  if slot.parent = -1 then some (.error .popGlobal)
  else some (.ok ⟨a.slots.take a.current.toNat, slot.parent⟩)

/-- Binds a name in the innermost scope. -/
def set (a : Arena) (name : String) (q : Quantity) : Option Arena := do
  let slot ← a.slot? a.current
  some (a.setSlot a.current (slot.set name q))

/-- Removes a name from the innermost scope, which must have it. -/
def remove (a : Arena) (name : String) : Option (Except ScopeError Arena) := do
  let slot ← a.slot? a.current
  match slot.vars.lookup name with
  | none => some (.error (.notDefined name))
  | some _ => some (.ok (a.setSlot a.current (slot.erase name)))

/-- Looks a name up from the scope of this number outwards, in at most so many scopes. Without an
answer the walk has left the arena or goes on. -/
def lookupWithin? (a : Arena) (name : String) (steps : Nat) (scope : Int) :
    Option (Option Quantity) :=
  if scope = -1 then some none
  else
    match steps with
    | 0 => none
    | steps + 1 => do
      let slot ← a.slot? scope
      match slot.vars.lookup name with
      | some q => some (some q)
      | none => a.lookupWithin? name steps slot.parent

/-- Looks a name up from the scope of this number outwards. A walk over more scopes than there are
comes to one of them again, so it would never end. -/
def lookup? (a : Arena) (scope : Int) (name : String) : Option (Option Quantity) :=
  a.lookupWithin? name a.slots.length scope

/-- The names of the innermost scope. -/
def names? (a : Arena) : Option (List String) := do
  let slot ← a.slot? a.current
  some slot.names

/-- How many scopes there are from this one outwards, if they are at most so many. -/
def depthWithin? (a : Arena) (steps : Nat) (scope : Int) : Option Nat :=
  if scope = -1 then some 0
  else
    match steps with
    | 0 => none
    | steps + 1 => do
      let slot ← a.slot? scope
      let depth ← a.depthWithin? steps slot.parent
      some (depth + 1)

/-- How many scopes there are from the innermost one outwards. -/
def depth? (a : Arena) : Option Nat :=
  a.depthWithin? a.slots.length a.current

end Arena

/-! ## The slot of a frame -/

/-- The quantities of a frame by name. -/
def Frame.vars : Frame → Finmap fun _ : String => Quantity
  | [] => ∅
  | (name, q) :: rest => (vars rest).insert name q

/-- The frame as the arena keeps it, inside the scope of this number. -/
def Frame.slot (frame : Frame) (parent : Int) : Slot :=
  ⟨frame.vars, frame.names, parent⟩

@[simp] theorem Frame.slot_vars (frame : Frame) (parent : Int) :
    (frame.slot parent).vars = frame.vars :=
  rfl

@[simp] theorem Frame.slot_parent (frame : Frame) (parent : Int) :
    (frame.slot parent).parent = parent :=
  rfl

theorem Bindings.mem_names_iff {α : Type} (b : Bindings α) (name : String) :
    name ∈ b.names ↔ (b.get? name).isSome := by
  induction b with
  | nil => simp [Bindings.names, Bindings.get?]
  | cons binding b ih =>
      rcases binding with ⟨n, a⟩
      by_cases hn : n = name
      · simp [Bindings.names, Bindings.get?, hn]
      · unfold Bindings.names at ih ⊢
        rw [List.map_cons, List.mem_cons, ih, Bindings.get?, if_neg hn]
        simp [Ne.symm hn]

theorem Bindings.get?_erase {α : Type} (b : Bindings α) (name other : String) :
    (b.erase name).get? other = if name = other then none else b.get? other := by
  induction b with
  | nil => simp [Bindings.erase, Bindings.get?]
  | cons binding b ih =>
      rcases binding with ⟨n, a⟩
      unfold Bindings.erase at ih ⊢
      by_cases hn : n = name
      · rw [List.filter_cons_of_neg (by simpa using hn), ih]
        subst hn
        simp only [Bindings.get?]
        split <;> rfl
      · rw [List.filter_cons_of_pos (by simpa using hn), Bindings.get?, ih, Bindings.get?]
        by_cases hother : n = other
        · subst hother
          rw [if_pos rfl, if_pos rfl, if_neg (Ne.symm hn)]
        · rw [if_neg hother, if_neg hother]

theorem Bindings.names_erase {α : Type} (b : Bindings α) (name : String) :
    (b.erase name).names = b.names.filter (· ≠ name) := by
  rw [Bindings.names, Bindings.names, Bindings.erase, List.filter_map]
  rfl

namespace Frame

theorem lookup_vars (frame : Frame) (name : String) :
    frame.vars.lookup name = frame.get? name := by
  induction frame with
  | nil => rfl
  | cons binding rest ih =>
      rcases binding with ⟨n, q⟩
      by_cases hn : n = name
      · subst hn
        rw [vars, Finmap.lookup_insert, Bindings.get?, if_pos rfl]
      · rw [vars, Finmap.lookup_insert_of_ne _ (Ne.symm hn), ih, Bindings.get?, if_neg hn]

theorem slot_set (frame : Frame) (parent : Int) (name : String) (q : Quantity) :
    (frame.slot parent).set name q = slot (frame.set name q) parent := by
  have hvars : frame.vars.insert name q = vars (frame.set name q) := by
    refine Finmap.ext_lookup fun other => ?_
    rw [lookup_vars, Bindings.get?_set]
    split
    · next hname =>
      subst hname
      exact Finmap.lookup_insert _
    · next hname => rw [Finmap.lookup_insert_of_ne _ (Ne.symm hname), lookup_vars]
  rw [Slot.set, slot, slot, Bindings.names_set, hvars, lookup_vars]
  simp only [Bindings.mem_names_iff]

theorem slot_erase (frame : Frame) (parent : Int) (name : String) :
    (frame.slot parent).erase name = slot (frame.erase name) parent := by
  have hvars : frame.vars.erase name = vars (frame.erase name) := by
    refine Finmap.ext_lookup fun other => ?_
    rw [lookup_vars, Bindings.get?_erase]
    split
    · next hname =>
      subst hname
      exact Finmap.lookup_erase _ _
    · next hname => rw [Finmap.lookup_erase_ne (Ne.symm hname), lookup_vars]
  rw [Slot.erase, slot, slot, Bindings.names_erase, hvars]

end Frame

/-! ## The arena of an environment -/

/-- The slots of frames that stand one inside the other, the innermost first. -/
def Frame.slots : List Frame → List Slot
  | [] => []
  | frame :: outer => Frame.slots outer ++ [frame.slot (outer.length - 1)]

theorem Frame.length_slots (frames : List Frame) : (slots frames).length = frames.length := by
  induction frames with
  | nil => rfl
  | cons frame outer ih => simp [slots, ih]

/-- Without the innermost frames the slots of the others are the same. -/
theorem Frame.exists_slots_drop :
    ∀ (frames : List Frame) (n : Nat),
      ∃ inside, Frame.slots frames = Frame.slots (frames.drop n) ++ inside
  | [], n => ⟨[], by rw [List.drop_nil, List.append_nil]⟩
  | frame :: outer, 0 => ⟨[], by rw [List.drop_zero, List.append_nil]⟩
  | frame :: outer, n + 1 => by
      obtain ⟨inside, h⟩ := Frame.exists_slots_drop outer n
      exact ⟨inside ++ [frame.slot (outer.length - 1)], by
        rw [List.drop_succ_cons, Frame.slots, h, List.append_assoc]⟩

/-- The frames of an environment in an arena, from the outermost inwards. -/
def Environment.arena (env : Environment) : Arena :=
  ⟨Frame.slots env.frames, env.current⟩

/-- The number is that of an open scope, or `-1` for none. -/
def Environment.Live (env : Environment) (scope : Int) : Prop :=
  -1 ≤ scope ∧ scope ≤ env.current

instance (env : Environment) (scope : Int) : Decidable (env.Live scope) :=
  inferInstanceAs (Decidable (_ ∧ _))

namespace Arena

open Environment (find?)

/-- The outermost frames are found under their numbers, whatever is opened inside. -/
theorem slot?_of_slots {a : Arena} {frame : Frame} {outer : List Frame} {inside : List Slot}
    (h : a.slots = Frame.slots (frame :: outer) ++ inside) :
    a.slot? outer.length = some (frame.slot (outer.length - 1)) := by
  rw [slot?, if_neg (by omega), h, Int.toNat_natCast, Frame.slots, List.append_assoc,
    List.getElem?_append_right (by rw [Frame.length_slots]), Frame.length_slots, Nat.sub_self]
  rfl

theorem slot?_current (env : Environment) :
    env.arena.slot? env.arena.current = some (env.inner.slot (env.current - 1)) :=
  slot?_of_slots (List.append_nil _).symm

theorem setSlot_current (env : Environment) (frame : Frame) :
    env.arena.setSlot env.arena.current (frame.slot (env.current - 1)) =
      { env with inner := frame }.arena := by
  have hset : (Frame.slots env.frames).set env.current (frame.slot (env.current - 1)) =
      Frame.slots (frame :: env.outer) := by
    rw [Environment.frames, Frame.slots, Frame.slots, Environment.current,
      List.set_append_right _ _ (by rw [Frame.length_slots]), Frame.length_slots, Nat.sub_self]
    rfl
  rw [setSlot, Environment.arena, Environment.arena, Int.toNat_natCast, hset]
  rfl

theorem empty_arena : Environment.empty.arena = empty :=
  rfl

theorem push_arena (env : Environment) : env.arena.push = env.push.arena := by
  have hfresh : Slot.fresh env.current = Frame.slot [] (env.frames.length - 1) := by
    simp [Slot.fresh, Frame.slot, Frame.vars, Bindings.names, Environment.current,
      Environment.frames]
  rw [push, Environment.arena, Environment.arena, Frame.length_slots, hfresh]
  rfl

theorem pop_arena (env : Environment) : env.arena.pop = some (env.pop.map Environment.arena) := by
  rw [pop, slot?_current, Option.bind_eq_bind, Option.bind_some]
  rcases env with ⟨inner, _ | ⟨frame, outer⟩⟩
  · rfl
  · have htake : (Frame.slots (inner :: frame :: outer)).take (frame :: outer).length =
        Frame.slots (frame :: outer) := by
      rw [Frame.slots, List.take_left' (Frame.length_slots _)]
    have hparent : ((frame :: outer).length : Int) - 1 = outer.length := by simp
    simp only [Frame.slot_parent, Environment.arena, Environment.current, Environment.frames,
      hparent, Int.toNat_natCast, htake]
    rw [if_neg (by omega)]
    rfl

theorem set_arena (env : Environment) (name : String) (q : Quantity) :
    env.arena.set name q = some (env.set name q).arena := by
  rw [set, slot?_current, Option.bind_eq_bind, Option.bind_some, Frame.slot_set, setSlot_current]
  rfl

theorem remove_arena (env : Environment) (name : String) :
    env.arena.remove name = some ((env.remove name).map Environment.arena) := by
  rw [remove, slot?_current, Option.bind_eq_bind, Option.bind_some, Environment.remove,
    Frame.slot_vars, Frame.lookup_vars, Frame.slot_erase, setSlot_current]
  cases env.inner.get? name with
  | none => rfl
  | some q => rfl

theorem names?_arena (env : Environment) : env.arena.names? = some env.names := by
  rw [names?, slot?_current]
  rfl

/-! ## Walking outwards -/

theorem lookupWithin?_end (a : Arena) (name : String) (steps : Nat) :
    a.lookupWithin? name steps (-1) = some none := by
  cases steps <;> rfl

theorem depthWithin?_end (a : Arena) (steps : Nat) : a.depthWithin? steps (-1) = some 0 := by
  cases steps <;> rfl

theorem lookupWithin?_of_slots {a : Arena} (name : String) :
    ∀ {frames : List Frame} {inside : List Slot} {steps : Nat},
      a.slots = Frame.slots frames ++ inside → frames.length ≤ steps →
        a.lookupWithin? name steps (frames.length - 1) = some (find? frames name)
  | [], inside, steps, h, _ => lookupWithin?_end a name steps
  | frame :: outer, inside, 0, h, hsteps => absurd hsteps (Nat.not_succ_le_zero _)
  | frame :: outer, inside, steps + 1, h, hsteps => by
      have hnumber : ((frame :: outer).length : Int) - 1 = outer.length := by simp
      rw [lookupWithin?, hnumber, if_neg (by omega)]
      rw [slot?_of_slots h, Option.bind_eq_bind, Option.bind_some, Frame.slot_vars,
        Frame.lookup_vars, find?, List.findSome?_cons]
      cases frame.get? name with
      | some q => rfl
      | none =>
          rw [Frame.slots, List.append_assoc] at h
          exact lookupWithin?_of_slots name h (Nat.le_of_succ_le_succ hsteps)

theorem depthWithin?_of_slots {a : Arena} :
    ∀ {frames : List Frame} {inside : List Slot} {steps : Nat},
      a.slots = Frame.slots frames ++ inside → frames.length ≤ steps →
        a.depthWithin? steps (frames.length - 1) = some frames.length
  | [], inside, steps, h, _ => depthWithin?_end a steps
  | frame :: outer, inside, 0, h, hsteps => absurd hsteps (Nat.not_succ_le_zero _)
  | frame :: outer, inside, steps + 1, h, hsteps => by
      have hnumber : ((frame :: outer).length : Int) - 1 = outer.length := by simp
      rw [depthWithin?, hnumber, if_neg (by omega)]
      rw [slot?_of_slots h, Option.bind_eq_bind, Option.bind_some, Frame.slot_parent]
      rw [Frame.slots, List.append_assoc] at h
      rw [depthWithin?_of_slots h (Nat.le_of_succ_le_succ hsteps)]
      rfl

theorem length_frames_sub_one (env : Environment) :
    (env.frames.length : Int) - 1 = env.arena.current := by
  simp [Environment.frames, Environment.arena, Environment.current]

theorem length_slots_arena (env : Environment) : env.arena.slots.length = env.frames.length :=
  Frame.length_slots env.frames

theorem depth?_arena (env : Environment) : env.arena.depth? = some env.depth := by
  have hdepth := depthWithin?_of_slots (a := env.arena) (List.append_nil _).symm
    (length_slots_arena env).ge
  rwa [length_frames_sub_one] at hdepth

theorem get?_arena (env : Environment) (name : String) :
    env.arena.lookup? env.arena.current name = some (env.get? name) := by
  have hfound := lookupWithin?_of_slots (a := env.arena) name (List.append_nil _).symm
    (length_slots_arena env).ge
  rwa [length_frames_sub_one] at hfound

theorem lookup?_arena (env : Environment) {scope : Int} (hscope : env.Live scope)
    (name : String) : env.arena.lookup? scope name = some (env.lookup? scope name) := by
  have ⟨hlow, hhigh⟩ := hscope
  rw [Environment.lookup?]
  split
  · next hneg =>
    obtain rfl : scope = -1 := by omega
    rw [lookup?, lookupWithin?_end]
  · next hpos =>
    obtain ⟨inside, hslots⟩ := Frame.exists_slots_drop env.frames (env.current - scope.toNat)
    have hnumber : ((env.frames.drop (env.current - scope.toNat)).length : Int) - 1 = scope := by
      rw [List.length_drop, Environment.frames, List.length_cons, ← Environment.current]
      omega
    have hlength := (List.drop_sublist (env.current - scope.toNat) env.frames).length_le
    have hfound := lookupWithin?_of_slots (a := env.arena) name hslots
      (hlength.trans (length_slots_arena env).ge)
    rwa [hnumber] at hfound

/-- From a scope that is not open the walk leaves the arena at once. -/
theorem lookup?_of_not_live (env : Environment) {scope : Int} (hscope : ¬ env.Live scope)
    (name : String) : env.arena.lookup? scope name = none := by
  have hout : scope < -1 ∨ (env.current : Int) < scope := by
    rw [Environment.Live, Decidable.not_and_iff_not_or_not, Int.not_le, Int.not_le] at hscope
    exact hscope
  have hslot : env.arena.slot? scope = none := by
    rw [slot?]
    split
    · rfl
    · refine List.getElem?_eq_none ?_
      rw [length_slots_arena, Environment.frames, List.length_cons, ← Environment.current]
      omega
  rw [lookup?, length_slots_arena, Environment.frames, List.length_cons, lookupWithin?,
    if_neg (by omega), hslot]
  rfl

end Arena
end Reckoner
