import Reckoner.Proofs.Scopes.Balanced

/-!
# What every arena keeps

An arena keeps each thing twice: how scopes stand inside each other in the list and in the numbers
of the slots, and the names of a scope in its quantities and in the list of names. In an arena that
operations have made from the first scope the two agree.

The order of the names is told by what was asked of the scope. A name stands for the first time that
it was set without being removed later; setting it again in between changes nothing. So a name that
was removed and set once more comes last.

* `Scopes.changes` — what was asked of each open scope;
* `Scopes.DefinedAt` — when a name was defined that is there still;
* `Slot.Keeps` — the names of a slot, against what was asked of its scope;
* `Environment.run_keeps` — one operation after another keeps them;
* `Arena.WellFormed`, `Arena.run_wellFormed` — every arena that operations make.
-/

namespace Reckoner

namespace Scopes

/-! ## What was asked of a scope -/

/-- What may be asked of the names of one scope. -/
inductive Change where
  | set (name : String)
  | remove (name : String)

/-- One more operation, after what was asked of the open scopes, the innermost first. -/
def change : List (List Change) → Operation → List (List Change)
  | rows, .push => [] :: rows
  | _ :: row :: outer, .pop => row :: outer
  | row :: outer, .set name _ => (row ++ [.set name]) :: outer
  | row :: outer, .remove name => (row ++ [.remove name]) :: outer
  | rows, _ => rows

/-- What was asked of each scope that the operations leave open, the innermost first. -/
def changes (ops : List Operation) : List (List Change) :=
  ops.foldl change [[]]

/-- The name was set at this point, and removed only before it. -/
def Stays (row : List Change) (name : String) (i : Nat) : Prop :=
  row[i]? = some (.set name) ∧ ∀ j, row[j]? = some (.remove name) → j < i

/-- The first point at which the name was set and not removed after it. -/
def DefinedAt (row : List Change) (name : String) (i : Nat) : Prop :=
  Stays row name i ∧ ∀ j < i, ¬ Stays row name j

variable {row : List Change} {name : String} {i : Nat}

theorem getElem?_concat_eq_some {α : Type} {l : List α} {c d : α} :
    (l ++ [c])[i]? = some d ↔ l[i]? = some d ∨ (i = l.length ∧ c = d) := by
  rcases Nat.lt_trichotomy i l.length with hi | rfl | hi
  · rw [List.getElem?_append_left hi]
    exact ⟨.inl, fun h => h.elim id fun h => absurd h.1 hi.ne⟩
  · simp
  · rw [List.getElem?_eq_none (by simp; omega), List.getElem?_eq_none hi.le]
    exact ⟨fun h => (by cases h), fun h => h.elim (fun h => by cases h) fun h => absurd h.1 hi.ne'⟩

theorem Stays.lt_length (h : Stays row name i) : i < row.length :=
  (List.getElem?_eq_some_iff.1 h.1).1

theorem stays_set {n : String} :
    Stays (row ++ [.set n]) name i ↔ Stays row name i ∨ (name = n ∧ i = row.length) := by
  have hremoved {j : Nat} : (row ++ [.set n])[j]? = some (Change.remove name) ↔
      row[j]? = some (.remove name) := by
    rw [getElem?_concat_eq_some, or_iff_left fun h => nomatch h.2]
  simp only [Stays, getElem?_concat_eq_some, hremoved]
  constructor
  · rintro ⟨hset | ⟨hi, hname⟩, hbefore⟩
    · exact .inl ⟨hset, hbefore⟩
    · cases hname
      exact .inr ⟨rfl, hi⟩
  · rintro (⟨hset, hbefore⟩ | ⟨rfl, rfl⟩)
    · exact ⟨.inl hset, hbefore⟩
    · exact ⟨.inr ⟨rfl, rfl⟩, fun j hj => (List.getElem?_eq_some_iff.1 hj).1⟩

theorem stays_remove {n : String} :
    Stays (row ++ [.remove n]) name i ↔ name ≠ n ∧ Stays row name i := by
  have hset : (row ++ [.remove n])[i]? = some (Change.set name) ↔ row[i]? = some (.set name) := by
    rw [getElem?_concat_eq_some, or_iff_left fun h => nomatch h.2]
  simp only [Stays, getElem?_concat_eq_some, hset]
  constructor
  · rintro ⟨hi, hbefore⟩
    refine ⟨?_, hi, fun j hj => hbefore j (.inl hj)⟩
    rintro rfl
    have hlast := hbefore row.length (.inr ⟨rfl, rfl⟩)
    exact absurd (List.getElem?_eq_some_iff.1 hi).1 (by omega)
  · rintro ⟨hne, hi, hbefore⟩
    refine ⟨hi, fun j hj => hj.elim (hbefore j) ?_⟩
    rintro ⟨-, hname⟩
    cases hname
    exact absurd rfl hne

theorem Stays.exists_definedAt (h : Stays row name i) : ∃ j, DefinedAt row name j := by
  classical
  exact ⟨Nat.find ⟨i, h⟩, Nat.find_spec ⟨i, h⟩, fun _ => Nat.find_min ⟨i, h⟩⟩

/-- Setting a name leaves those that are defined where they are. -/
theorem definedAt_set {n : String} :
    DefinedAt (row ++ [.set n]) name i ↔
      DefinedAt row name i ∨ (name = n ∧ i = row.length ∧ ∀ j, ¬ DefinedAt row name j) := by
  constructor
  · rintro ⟨hstays, hfirst⟩
    have hbefore : ∀ j < i, ¬ Stays row name j := fun j hj h => hfirst j hj (stays_set.2 (.inl h))
    rcases stays_set.1 hstays with h | ⟨hname, hi⟩
    · exact .inl ⟨h, hbefore⟩
    · exact .inr ⟨hname, hi, fun j h => hbefore j (hi ▸ h.1.lt_length) h.1⟩
  · rintro (⟨hstays, hfirst⟩ | ⟨hname, hi, hnone⟩)
    · refine ⟨stays_set.2 (.inl hstays), fun j hj h => ?_⟩
      rcases stays_set.1 h with hj' | ⟨-, hlast⟩
      · exact hfirst j hj hj'
      · have hlt := hstays.lt_length
        omega
    · refine ⟨stays_set.2 (.inr ⟨hname, hi⟩), fun j hj h => ?_⟩
      rcases stays_set.1 h with hj' | ⟨-, hlast⟩
      · obtain ⟨k, hk⟩ := hj'.exists_definedAt
        exact hnone k hk
      · omega

/-- Removing a name leaves the others where they are. -/
theorem definedAt_remove {n : String} :
    DefinedAt (row ++ [.remove n]) name i ↔ name ≠ n ∧ DefinedAt row name i := by
  constructor
  · rintro ⟨hstays, hfirst⟩
    obtain ⟨hne, h⟩ := stays_remove.1 hstays
    exact ⟨hne, h, fun j hj hj' => hfirst j hj (stays_remove.2 ⟨hne, hj'⟩)⟩
  · rintro ⟨hne, hstays, hfirst⟩
    exact ⟨stays_remove.2 ⟨hne, hstays⟩, fun j hj h => hfirst j hj (stays_remove.1 h).2⟩

end Scopes

open Scopes

/-! ## The names of a slot -/

/-- The names of a slot are those that are bound, each once, and stand in the order in which they
were defined. -/
structure Slot.Keeps (slot : Slot) (row : List Change) : Prop where
  nodup : slot.names.Nodup
  mem_vars : ∀ name, name ∈ slot.names ↔ name ∈ slot.vars
  defined : ∀ name, name ∈ slot.names ↔ ∃ i, DefinedAt row name i
  ordered : slot.names.Pairwise fun first second =>
    ∀ i j, DefinedAt row first i → DefinedAt row second j → i < j

namespace Slot.Keeps

variable {slot : Slot} {row : List Change}

theorem fresh (parent : Int) : (Slot.fresh parent).Keeps [] where
  nodup := List.nodup_nil
  mem_vars name := ⟨fun h => (by cases h), fun h => absurd h Finmap.notMem_empty⟩
  defined name := by simp [Slot.fresh, DefinedAt, Stays]
  ordered := List.Pairwise.nil

theorem set (h : slot.Keeps row) (name : String) (q : Quantity) :
    (slot.set name q).Keeps (row ++ [.set name]) := by
  have hbound : (slot.vars.lookup name).isSome ↔ name ∈ slot.names := by
    rw [h.mem_vars, Finmap.lookup_isSome]
  by_cases hname : name ∈ slot.names
  · -- The name is there, and its place was told by an earlier setting.
    have hnames : (slot.set name q).names = slot.names := if_pos (hbound.2 hname)
    have hsame : ∀ {n i}, DefinedAt (row ++ [.set name]) n i ↔ DefinedAt row n i := by
      intro n i
      rw [definedAt_set, or_iff_left]
      rintro ⟨rfl, -, hnone⟩
      obtain ⟨j, hj⟩ := (h.defined n).1 hname
      exact hnone j hj
    refine ⟨hnames ▸ h.nodup, fun n => ?_, fun n => ?_, ?_⟩
    · rw [hnames, Slot.set, Finmap.mem_insert, ← h.mem_vars]
      exact ⟨.inr, fun hn => hn.elim (fun heq => heq ▸ hname) id⟩
    · simp only [hnames, hsame, h.defined n]
    · simp only [hnames, hsame]
      exact h.ordered
  · -- The name is new or was removed since, so this setting is the one that defines it.
    have hnames : (slot.set name q).names = slot.names ++ [name] :=
      if_neg fun hsome => hname (hbound.1 hsome)
    have hother : ∀ {n i}, n ∈ slot.names →
        DefinedAt (row ++ [.set name]) n i → DefinedAt row n i := by
      intro n i hn hi
      rcases definedAt_set.1 hi with hi | ⟨rfl, -⟩
      · exact hi
      · exact absurd hn hname
    have hlast : ∀ {i}, DefinedAt (row ++ [.set name]) name i ↔ i = row.length := by
      intro i
      have hnone : ∀ j, ¬ DefinedAt row name j := fun j hj => hname ((h.defined name).2 ⟨j, hj⟩)
      rw [definedAt_set]
      exact ⟨fun hi => hi.elim (fun hi => absurd hi (hnone i)) (·.2.1),
        fun hi => .inr ⟨rfl, hi, hnone⟩⟩
    refine ⟨?_, fun n => ?_, fun n => ?_, ?_⟩
    · rw [hnames]
      exact h.nodup.append (List.nodup_singleton name) (by simpa using hname)
    · rw [hnames, Slot.set, Finmap.mem_insert, ← h.mem_vars, List.mem_append, List.mem_singleton,
        or_comm]
    · rw [hnames, List.mem_append, List.mem_singleton, h.defined]
      constructor
      · rintro (⟨i, hi⟩ | rfl)
        · exact ⟨i, definedAt_set.2 (.inl hi)⟩
        · exact ⟨row.length, hlast.2 rfl⟩
      · rintro ⟨i, hi⟩
        exact (definedAt_set.1 hi).imp (fun hi => ⟨i, hi⟩) (·.1)
    · rw [hnames]
      refine List.pairwise_append.2 ⟨?_, List.pairwise_singleton _ _, ?_⟩
      · exact h.ordered.imp_of_mem fun hfirst hsecond hlt i j hi hj =>
          hlt i j (hother hfirst hi) (hother hsecond hj)
      · intro n hn last hmem i j hi hj
        rw [List.mem_singleton.1 hmem, hlast] at hj
        exact hj ▸ (hother hn hi).1.lt_length

theorem erase (h : slot.Keeps row) (name : String) :
    (slot.erase name).Keeps (row ++ [.remove name]) := by
  have hmem : ∀ n, n ∈ (slot.erase name).names ↔ n ≠ name ∧ n ∈ slot.names := by
    intro n
    rw [Slot.erase, List.mem_filter, decide_eq_true_iff, and_comm]
  refine ⟨h.nodup.filter _, fun n => ?_, fun n => ?_, ?_⟩
  · rw [hmem, h.mem_vars, Slot.erase, Finmap.mem_erase]
  · simp only [hmem, h.defined, definedAt_remove, exists_and_left]
  · exact (h.ordered.filter _).imp fun hlt i j hi hj =>
      hlt i j (definedAt_remove.1 hi).2 (definedAt_remove.1 hj).2

/-- Asking for the removal of a name that is not there changes nothing. -/
theorem remove_of_not_mem (h : slot.Keeps row) {name : String} (hname : name ∉ slot.names) :
    slot.Keeps (row ++ [.remove name]) := by
  have hsame : ∀ {n i}, DefinedAt (row ++ [.remove name]) n i ↔ DefinedAt row n i := by
    intro n i
    rw [definedAt_remove, and_iff_right_iff_imp]
    rintro hi rfl
    exact hname ((h.defined n).2 ⟨i, hi⟩)
  exact ⟨h.nodup, h.mem_vars, by simpa only [hsame] using h.defined,
    by simpa only [hsame] using h.ordered⟩

end Slot.Keeps

/-! ## Runs -/

/-- The frame keeps its names in any slot. -/
def Frame.Keeps (frame : Frame) (row : List Change) : Prop :=
  ∀ parent, (frame.slot parent).Keeps row

namespace Frame.Keeps

variable {frame : Frame} {row : List Change}

theorem empty : Frame.Keeps [] [] :=
  Slot.Keeps.fresh

theorem set (h : frame.Keeps row) (name : String) (q : Quantity) :
    Frame.Keeps (frame.set name q) (row ++ [.set name]) := by
  intro parent
  rw [← Frame.slot_set]
  exact (h parent).set name q

theorem erase (h : frame.Keeps row) (name : String) :
    Frame.Keeps (frame.erase name) (row ++ [.remove name]) := by
  intro parent
  rw [← Frame.slot_erase]
  exact (h parent).erase name

theorem remove_of_not_mem (h : frame.Keeps row) {name : String} (hname : name ∉ frame.names) :
    frame.Keeps (row ++ [.remove name]) :=
  fun parent => (h parent).remove_of_not_mem hname

end Frame.Keeps

namespace Environment

theorem step_keeps {env : Environment} {rows : List (List Change)}
    (h : List.Forall₂ Frame.Keeps env.frames rows) (op : Operation) :
    List.Forall₂ Frame.Keeps (env.step op).1.frames (change rows op) := by
  rcases env with ⟨inner, outer⟩
  rcases h with _ | ⟨hinner, houter⟩
  cases op with
  | push => exact .cons .empty (.cons hinner houter)
  | pop =>
      cases houter with
      | nil => exact .cons hinner .nil
      | cons hparent houter => exact .cons hparent houter
  | set name q => exact .cons (hinner.set name q) houter
  | remove name =>
      cases hbound : Bindings.get? inner name with
      | none =>
          rw [step, remove, hbound]
          refine .cons (hinner.remove_of_not_mem fun hmem => ?_) houter
          rw [Bindings.mem_names_iff, hbound] at hmem
          cases hmem
      | some q =>
          rw [step, remove, hbound]
          exact .cons (hinner.erase name) houter
  | get name => exact .cons hinner houter
  | lookup scope name => exact .cons hinner houter
  | names => exact .cons hinner houter

/-- A refusal changes nothing. -/
theorem step_refused {env : Environment} {op : Operation} {e : ScopeError}
    (h : (env.step op).2 = some (.refused e)) : (env.step op).1 = env := by
  cases op with
  | pop =>
      rw [step] at h ⊢
      cases hchange : env.pop with
      | error _ => rfl
      | ok after => simp [hchange, outcome] at h
  | remove name =>
      rw [step] at h ⊢
      cases hchange : env.remove name with
      | error _ => rfl
      | ok after => simp [hchange, outcome] at h
  | get name => rfl
  | lookup scope name => rfl
  | names => rfl
  | push => cases h
  | set name q => cases h

theorem run_keeps {env : Environment} {rows : List (List Change)}
    (h : List.Forall₂ Frame.Keeps env.frames rows) (ops : List Operation) :
    List.Forall₂ Frame.Keeps (run step env ops).1.frames (ops.foldl change rows) := by
  induction ops generalizing env rows with
  | nil => exact h
  | cons op rest ih => exact ih (step_keeps h op)

end Environment

theorem Frame.slots_keep {frames : List Frame} {rows : List (List Change)}
    (h : List.Forall₂ Frame.Keeps frames rows) :
    List.Forall₂ Slot.Keeps (Frame.slots frames) rows.reverse := by
  induction h with
  | nil => exact .nil
  | cons hframe _ ih =>
      rw [Frame.slots, List.reverse_cons]
      exact List.rel_append ih (.cons (hframe _) .nil)

/-- Each slot knows the number before its own. -/
theorem Frame.parent_of_slots {frames : List Frame} {i : Nat} {slot : Slot}
    (h : (Frame.slots frames)[i]? = some slot) : slot.parent = (i : Int) - 1 := by
  induction frames with
  | nil => cases h
  | cons frame outer ih =>
      rw [Frame.slots] at h
      rcases getElem?_concat_eq_some.1 h with hslot | ⟨rfl, rfl⟩
      · exact ih hslot
      · rw [Frame.slot_parent, Frame.length_slots]

/-! ## The innermost scope as text -/

/-- The names of a slot with the numbers found under them. -/
def Slot.text (slot : Slot) : String :=
  let number (name : String) := ((slot.vars.lookup name).getD ⟨.int 0, .nowhere⟩).number
  "\x7b" ++ ", ".intercalate (slot.names.map fun name => name ++ ": " ++ (number name).text)
    ++ "\x7d"

/-- Where no name comes twice, what is found under each is what it stands with. -/
theorem Bindings.map_names {α β : Type} {b : Bindings α} (h : b.names.Nodup)
    (f : String → Option α → β) :
    b.names.map (fun name => f name (b.get? name)) = b.map fun (name, a) => f name (some a) := by
  induction b with
  | nil => rfl
  | cons binding b ih =>
      rcases binding with ⟨n, a⟩
      rw [Bindings.names, List.map_cons, List.nodup_cons] at h
      have hrest : ∀ name ∈ Bindings.names b, f name (Bindings.get? ((n, a) :: b) name) =
          f name (Bindings.get? b name) := by
        intro name hname
        rw [Bindings.get?, if_neg fun heq : n = name => h.1 (heq ▸ hname)]
      rw [Bindings.names, List.map_cons, List.map_cons, List.map_cons, ← ih h.2,
        Bindings.get?, if_pos rfl]
      exact congrArg _ (List.map_congr_left hrest)

namespace Arena

/-- The numbers lead outwards from the last slot to the first, and every slot has its names in
order. What was asked of each scope stands from the outermost inwards. -/
structure WellFormed (a : Arena) (rows : List (List Change)) : Prop where
  nonempty : a.slots ≠ []
  parent : ∀ (i : Nat) slot, a.slots[i]? = some slot → slot.parent = (i : Int) - 1
  current : a.current = a.slots.length - 1
  keeps : List.Forall₂ Slot.Keeps a.slots rows

/-- The innermost scope as text. -/
def text? (a : Arena) : Option String := do
  let slot ← a.slot? a.current
  some slot.text

theorem text?_arena {env : Environment} (h : env.names.Nodup) :
    env.arena.text? = some env.text := by
  have hentries := Bindings.map_names h fun name (q? : Option Quantity) =>
    name ++ ": " ++ (q?.getD ⟨.int 0, .nowhere⟩).number.text
  rw [text?, slot?_current, Option.bind_eq_bind, Option.bind_some, Slot.text, Environment.text]
  simp only [Frame.slot_vars, Frame.lookup_vars]
  exact congrArg (fun entries => some ("\x7b" ++ ", ".intercalate entries ++ "\x7d")) hentries

theorem names_nodup {env : Environment} {rows : List (List Change)}
    (h : List.Forall₂ Frame.Keeps env.frames rows) : env.names.Nodup := by
  rcases h with _ | ⟨hinner, -⟩
  exact (hinner 0).nodup

theorem wellFormed_arena {env : Environment} {rows : List (List Change)}
    (h : List.Forall₂ Frame.Keeps env.frames rows) : env.arena.WellFormed rows.reverse where
  nonempty := by simp [Environment.arena, Environment.frames, Frame.slots]
  parent _ _ hslot := Frame.parent_of_slots hslot
  current := by rw [length_slots_arena, length_frames_sub_one]
  keeps := Frame.slots_keep h

/-- Whatever is opened, closed, set and removed from the first scope on, also where it is refused:
there is a slot, each knows the one before it, the last is the innermost, as many are counted
outwards as there are, and each has its names once, in the order in which they were defined.
Nothing that is asked next leaves the arena or goes on without end, but a name looked up from a
number that is not that of a scope or of none; and what is refused changes nothing. -/
theorem run_wellFormed (ops : List Operation) :
    let a := (run step empty ops).1
    a.WellFormed (changes ops).reverse ∧
      a.depth? = some a.slots.length ∧
      a.text? = some (run Environment.step .empty ops).1.text ∧
      (∀ op, (a.step op).2 = none →
        ∃ scope name, op = .lookup scope name ∧ (scope < -1 ∨ a.slots.length ≤ scope)) ∧
      ∀ op e, (a.step op).2 = some (.refused e) → (a.step op).1 = a := by
  intro a
  obtain ⟨env, henv⟩ : ∃ env, (run Environment.step .empty ops).1 = env := ⟨_, rfl⟩
  have harena : a = env.arena := henv ▸ congrArg Prod.fst (run_arena .empty ops)
  have hempty : List.Forall₂ Frame.Keeps Environment.empty.frames [[]] := .cons .empty .nil
  have hkeeps : List.Forall₂ Frame.Keeps env.frames (changes ops) :=
    henv ▸ Environment.run_keeps hempty ops
  rw [harena, henv]
  refine ⟨wellFormed_arena hkeeps, ?_, text?_arena (names_nodup hkeeps),
    fun op hnone => ?_, fun op e he => ?_⟩
  · rw [depth?_arena, length_slots_arena]
    rfl
  · rw [step_arena] at hnone
    obtain ⟨scope, name, hop, hlive⟩ := Environment.step_answers hnone
    refine ⟨scope, name, hop, ?_⟩
    rw [length_slots_arena, Environment.frames, List.length_cons, ← Environment.current]
    rw [Environment.Live] at hlive
    omega
  · rw [step_arena] at he ⊢
    rw [Environment.step_refused he]

example (q : Quantity) :
    (run Environment.step .empty
      [.set "x" q, .set "y" q, .set "x" q, .push, .remove "x", .pop]).1.names = ["x", "y"] ∧
    (run Environment.step .empty
      [.set "x" q, .set "y" q, .remove "x", .set "x" q, .pop]).1.names = ["y", "x"] :=
  ⟨rfl, rfl⟩

end Arena
end Reckoner
