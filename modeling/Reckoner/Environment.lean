import Reckoner.Bindings
import Reckoner.Text.Quoted
import Reckoner.Value

/-!
# Environments

Names bound to quantities in scopes, one inside the other. Each scope keeps its names in the order
of their definition. Scopes are numbered from the outermost, which is `0` and always open.

* `Frame` — the bindings of one scope;
* `Environment` — the open scopes, the innermost apart;
* `push`, `pop` — open and close a scope;
* `set`, `remove` — change the innermost scope;
* `get?`, `lookup?` — look a name up from the innermost or from a given scope outwards.
-/

namespace Reckoner

open Text (quoted)

/-- The bindings of one scope, in the order of definition. -/
abbrev Frame := Bindings Quantity

/-- Why a change of scopes is refused. -/
inductive ScopeError where
  | popGlobal
  | notDefined (name : String)

/-- The refusal in words. -/
def ScopeError.message : ScopeError → String
  | popGlobal => "cannot pop the global scope"
  | notDefined name => "variable " ++ quoted name ++ " is not defined in the current scope"

/-- The open scopes: the innermost, and those around it from the nearest to the outermost. -/
structure Environment where
  inner : Frame
  outer : List Frame

namespace Environment

/-- One scope without names. -/
def empty : Environment :=
  ⟨[], []⟩

/-- All open scopes, the innermost first. -/
def frames (env : Environment) : List Frame :=
  env.inner :: env.outer

/-- The number of the innermost scope. -/
def current (env : Environment) : Nat :=
  env.outer.length

/-- How many scopes are open. -/
def depth (env : Environment) : Nat :=
  env.outer.length + 1

/-- Opens a scope inside the innermost one. -/
def push (env : Environment) : Environment :=
  ⟨[], env.frames⟩

/-- Closes the innermost scope; the outermost stays. -/
def pop (env : Environment) : Except ScopeError Environment :=
  match env.outer with
  | [] => .error .popGlobal
  | parent :: outer => .ok ⟨parent, outer⟩

/-- Binds a name in the innermost scope, hiding bindings of it further out. -/
def set (env : Environment) (name : String) (q : Quantity) : Environment :=
  { env with inner := env.inner.set name q }

/-- Removes a name from the innermost scope, which must have it. -/
def remove (env : Environment) (name : String) : Except ScopeError Environment :=
  match env.inner.get? name with
  | none => .error (.notDefined name)
  | some _ => .ok { env with inner := env.inner.erase name }

/-- The quantity that a name is bound to in the first of the scopes that has it. -/
def find? (frames : List Frame) (name : String) : Option Quantity :=
  frames.findSome? (·.get? name)

/-- Looks a name up from the innermost scope outwards. -/
def get? (env : Environment) (name : String) : Option Quantity :=
  find? env.frames name

/-- Looks a name up from the scope of this number outwards; there is none below zero. -/
def lookup? (env : Environment) (scope : Int) (name : String) : Option Quantity :=
  if scope < 0 then none else find? (env.frames.drop (env.current - scope.toNat)) name

/-- The names of the innermost scope. -/
def names (env : Environment) : List String :=
  env.inner.names

/-- The innermost scope as text. -/
def text (env : Environment) : String :=
  "\x7b" ++ ", ".intercalate (env.inner.map fun (name, q) => name ++ ": " ++ q.number.text)
    ++ "\x7d"

/-- The environment that programs start from. -/
def global : Environment :=
  ((empty.set "nil" ⟨.int 0, .nowhere⟩).set "true" ⟨.int 1, .nowhere⟩).set "false"
    ⟨.int 0, .nowhere⟩

end Environment
end Reckoner
