import Reckoner.Files

/-!
# Files under their paths

A path leads to the same place after a file was written there: the directories that it goes through
are still directories, and none of them is the file.

* `Bindings.any_set`, `Bindings.set_set`, `Bindings.set_eq_self` — bindings with one changed;
* `Files.Target.Names` — the name under which a path finds a file, or would make one;
* `Files.walk_set`, `Files.locate_set` — the place of a path after writing to it.
-/

namespace Reckoner

namespace Bindings

variable {α : Type}

/-- The names that are bound stay bound. -/
theorem any_set {b : Bindings α} {p : String → Bool} (h : b.any fun binding => p binding.1)
    (name : String) (a : α) : (b.set name a).any fun binding => p binding.1 := by
  induction b with
  | nil => cases h
  | cons binding b ih =>
      rw [set]
      split
      · simpa using h
      · simp only [List.any_cons, Bool.or_eq_true] at h ⊢
        exact h.imp_right ih

theorem set_set (b : Bindings α) (name : String) (old a : α) :
    (b.set name old).set name a = b.set name a := by
  induction b with
  | nil => simp [set]
  | cons binding b ih =>
      rcases binding with ⟨n, x⟩
      by_cases hn : n = name
      · simp [set, hn]
      · simp [set, hn, ih]

theorem set_eq_self {b : Bindings α} {name : String} {a : α} (h : b.get? name = some a) :
    b.set name a = b := by
  induction b with
  | nil => cases h
  | cons binding b ih =>
      rw [get?] at h
      rw [set]
      split
      · next hname =>
        rw [if_pos hname] at h
        rw [← Option.some.inj h]
      · next hname =>
        rw [if_neg hname] at h
        rw [ih h]

end Bindings

namespace Files

/-- The file at the place, or the file that can be made there, has this name. -/
def Target.Names (name : String) : Target → Prop
  | .file n _ => n = name
  | .directory => False
  | .vacant n => n = name

/-- The content at the place, if it is a file. -/
def Target.content? : Target → Option Content
  | .file _ content => some content
  | .directory => none
  | .vacant _ => none

/-- The paths of some files go through this one. -/
def HasBelow (files : Files) (name : String) : Prop :=
  files.any fun file => (name ++ "/").toList.isPrefixOf file.1.toList

/-- What a walk finds is what the files have under its name, and it is no directory. -/
theorem found_of_walk {files : Files} {path : String} {here steps : List String} {target : Target}
    {name : String} (h : files.walk path here steps = .ok target) (hname : target.Names name) :
    files.get? name = target.content? ∧ (files.get? name = none → ¬ files.HasBelow name) := by
  fun_induction walk files path here steps with
  | case1 =>
      cases h
      cases hname
  | case2 _ _ _ _ ih => exact ih h
  | case3 => cases h
  | case4 _ _ _ _ ih => exact ih h
  | case5 here step rest _ _ place content hget _ =>
      cases h
      have hname : place = name := hname
      rw [← hname]
      exact ⟨hget, fun hnone => nomatch hget.symm.trans hnone⟩
  | case6 => cases h
  | case7 _ _ _ _ _ _ _ _ ih => exact ih h
  | case8 here step rest _ _ place hget hbelow _ =>
      cases h
      have hname : place = name := hname
      rw [← hname]
      exact ⟨hget, fun _ => hbelow⟩
  | case9 => cases h

theorem walk_set {files : Files} {path : String} {here steps : List String} {target : Target}
    {name : String} (h : files.walk path here steps = .ok target) (hname : target.Names name)
    (content : Content) :
    Files.walk (files.set name content) path here steps = .ok (.file name content) := by
  have hself : Bindings.get? (files.set name content) name = some content := by
    simp [Bindings.get?_set]
  fun_induction walk files path here steps with
  | case1 =>
      cases h
      cases hname
  | case2 here step rest hstep ih =>
      unfold walk
      rw [if_pos hstep]
      exact ih h
  | case3 => cases h
  | case4 rest inner outer hstep ih =>
      unfold walk
      rw [if_neg hstep, if_pos rfl]
      exact ih h
  | case5 here step rest hstep hup place old hget hlast =>
      cases h
      have hplace : "/".intercalate (step :: here).reverse = name := hname
      unfold walk
      simp only [if_neg hstep, if_neg hup, hplace, hself, if_pos hlast]
  | case6 => cases h
  | case7 here step rest hstep hup place hget hbelow ih =>
      -- A directory on the way is not the file at its end.
      have hne : name ≠ place := by
        intro hplace
        rw [← hplace] at hget hbelow
        exact (found_of_walk h hname).2 hget hbelow
      have hget' : Bindings.get? (files.set name content) place = none := by
        rw [Bindings.get?_set, if_neg hne, hget]
      have hbelow' : (files.set name content).any fun file =>
          (place ++ "/").toList.isPrefixOf file.1.toList :=
        Bindings.any_set (p := fun n => (place ++ "/").toList.isPrefixOf n.toList) hbelow name
          content
      unfold walk
      simp only [if_neg hstep, if_neg hup, place, hget', hbelow', if_true]
      exact ih h
  | case8 here step rest hstep hup place hget hbelow hlast =>
      cases h
      have hplace : "/".intercalate (step :: here).reverse = name := hname
      unfold walk
      simp only [if_neg hstep, if_neg hup, hplace, hself, if_pos hlast]
  | case9 => cases h

theorem get?_of_locate {files : Files} {path name : String} {content : Content}
    (h : files.locate path = .ok (.file name content)) : files.get? name = some content := by
  unfold locate at h
  split at h
  · next hget =>
    cases h
    exact hget
  · cases h
  · cases h
  · exact (found_of_walk h rfl).1

/-- A path leads to the file that was written where it led. -/
theorem locate_set {files : Files} {path name : String} {target : Target}
    (h : files.locate path = .ok target) (hname : target.Names name) (content : Content) :
    Files.locate (files.set name content) path = .ok (.file name content) := by
  by_cases hpath : name = path
  · subst hpath
    simp [locate, Bindings.get?_set]
  · have hother : Bindings.get? (files.set name content) path = files.get? path := by
      rw [Bindings.get?_set, if_neg hpath]
    unfold locate at h ⊢
    rw [hother]
    split at h
    · cases h
      exact absurd hname.symm hpath
    · cases h
    · cases h
    · exact walk_set h hname content

end Files
end Reckoner
