/-!
# Names bound to things

Bindings in the order in which the names were first bound. Binding a name again keeps its place.

* `Bindings.get?` — what a name is bound to;
* `Bindings.set` — binds a name;
* `Bindings.erase` — unbinds a name;
* `Bindings.names` — the names in order;
* `Bindings.get?_set` — a name after one was bound.
-/

namespace Reckoner

/-- Names with what they are bound to, in order. -/
abbrev Bindings (α : Type) := List (String × α)

namespace Bindings

variable {α : Type}

/-- The names in order. -/
def names (b : Bindings α) : List String :=
  b.map (·.1)

/-- What a name is bound to. -/
def get? : Bindings α → String → Option α
  | [], _ => none
  | (n, a) :: rest, name => if n = name then some a else get? rest name

/-- Binds a name: in its place when it is bound already, else at the end. -/
def set : Bindings α → String → α → Bindings α
  | [], name, a => [(name, a)]
  | (n, old) :: rest, name, a =>
    if n = name then (n, a) :: rest else (n, old) :: set rest name a

/-- The bindings of all other names. -/
def erase (b : Bindings α) (name : String) : Bindings α :=
  b.filter (·.1 ≠ name)

theorem get?_set (b : Bindings α) (name : String) (a : α) (other : String) :
    (b.set name a).get? other = if name = other then some a else b.get? other := by
  induction b with
  | nil => rfl
  | cons binding b ih =>
      rcases binding with ⟨n, old⟩
      by_cases hn : n = name
      · subst hn
        by_cases hother : n = other <;> simp [set, get?, hother]
      · by_cases hother : n = other
        · subst hother
          simp [set, get?, hn, Ne.symm hn]
        · simp [set, get?, hn, hother, ih]

end Bindings
end Reckoner
