import Mathlib.Data.List.Dedup
import Mathlib.Data.List.Forall2
import Reckoner.Config.Basic
import Reckoner.Proofs.Regular
import Reckoner.Proofs.Scopes.Arena

/-!
# Globals as numbers

A configuration lists its globals in no particular order, and they are bound one after another under
their names in lower case. Nothing is lost by it, and the order is of no account, as long as the
names stay apart. The checks of a configuration do not see to that: they look at one name at a time,
and as it is written. Which numbers the values stand for is of no account in this.

* `Bindings.setAll` — names bound one after another, with what is found under them;
* `Bindings.length_setAll_nil_iff` — all of them are kept when they are distinct;
* `Config.checkGlobal_of_validate` — what the checks promise of a global;
* `Config.globalNumbers_lossless_iff` — when nothing is lost, and when the order is of no account.
-/

namespace Reckoner

/-! ## Names bound one after another -/

namespace Bindings

variable {α : Type}

/-- Binds names one after another, so that the last binding of a name stays. -/
def setAll (b entries : Bindings α) : Bindings α :=
  entries.foldl (fun b entry => b.set entry.1 entry.2) b

@[simp] theorem setAll_nil (b : Bindings α) : b.setAll [] = b := rfl

@[simp] theorem setAll_cons (b : Bindings α) (entry : String × α) (rest : Bindings α) :
    b.setAll (entry :: rest) = (b.set entry.1 entry.2).setAll rest := rfl

theorem get?_append (b c : Bindings α) (name : String) :
    get? (b ++ c) name = (b.get? name).or (c.get? name) := by
  induction b with
  | nil => rfl
  | cons entry b ih =>
      rw [List.cons_append, get?, get?, ih]
      split <;> rfl

/-- A name stands for the last thing it was bound to. -/
theorem get?_setAll (b entries : Bindings α) (name : String) :
    (b.setAll entries).get? name = (get? entries.reverse name).or (b.get? name) := by
  induction entries generalizing b with
  | nil => rfl
  | cons entry rest ih =>
      rw [setAll_cons, ih, get?_set, List.reverse_cons, get?_append, Option.or_assoc]
      congr 1
      simp only [get?]
      split <;> rfl

theorem mem_names_setAll {b entries : Bindings α} {name : String} :
    name ∈ (b.setAll entries).names ↔ name ∈ b.names ∨ name ∈ entries.names := by
  induction entries generalizing b with
  | nil => simp [names]
  | cons entry rest ih =>
      have hset : name ∈ (b.set entry.1 entry.2).names ↔ name ∈ b.names ∨ name = entry.1 := by
        rw [names_set]
        split
        · next hold => exact ⟨.inl, fun h => h.elim id fun heq => heq ▸ hold⟩
        · rw [List.mem_append, List.mem_singleton]
      rw [setAll_cons, ih, hset, or_assoc]
      simp [names]

theorem nodup_names_setAll {b : Bindings α} (h : b.names.Nodup) (entries : Bindings α) :
    (b.setAll entries).names.Nodup := by
  induction entries generalizing b with
  | nil => exact h
  | cons entry rest ih =>
      refine ih ?_
      rw [names_set]
      split
      · exact h
      · next hnew => exact List.nodup_append.2 ⟨h, by simp, by grind⟩

/-- A name that is not bound yet comes last. -/
theorem set_of_not_mem {b : Bindings α} {name : String} (h : name ∉ b.names) (a : α) :
    b.set name a = b ++ [(name, a)] := by
  induction b with
  | nil => rfl
  | cons entry b ih =>
      rw [names, List.map_cons, List.mem_cons, not_or] at h
      rw [set, if_neg (Ne.symm h.1), ih h.2, List.cons_append]

/-- Names that are distinct and not bound yet are bound in order. -/
theorem setAll_of_nodup {b entries : Bindings α} (h : (names (b ++ entries)).Nodup) :
    b.setAll entries = b ++ entries := by
  induction entries generalizing b with
  | nil => simp
  | cons entry rest ih =>
      have hnew : entry.1 ∉ b.names := by
        rw [names, List.map_append, List.nodup_append] at h
        intro hmem
        exact h.2.2 _ hmem _ (by simp) rfl
      rw [setAll_cons, set_of_not_mem hnew, ih (by simpa using h), List.append_assoc]
      rfl

/-- Nothing is lost exactly when no name comes twice. -/
theorem length_setAll_nil_iff (entries : Bindings α) :
    (setAll [] entries).length = entries.length ↔ entries.names.Nodup := by
  constructor
  · intro hlength
    -- The names are those of the entries, each once.
    have hperm : (setAll [] entries).names.Perm entries.names.dedup := by
      refine (List.perm_ext_iff_of_nodup (nodup_names_setAll (by simp [names]) entries)
        (List.nodup_dedup _)).2 fun name => ?_
      rw [List.mem_dedup, mem_names_setAll]
      simp [names]
    have hsame : entries.names.dedup.length = entries.names.length := by
      rw [← hperm.length_eq, names, names, List.length_map, List.length_map, hlength]
    exact List.dedup_eq_self.1 ((List.dedup_sublist _).eq_of_length hsame)
  · intro hnodup
    rw [setAll_of_nodup (by simpa using hnodup), List.nil_append]

/-- An entry is found when no other one with its name says anything else. -/
theorem get?_eq_some_of_mem {b : Bindings α} {name : String} {a : α} (hmem : (name, a) ∈ b)
    (honly : ∀ entry ∈ b, entry.1 = name → entry.2 = a) : b.get? name = some a := by
  have hbound : name ∈ b.names := List.mem_map.2 ⟨_, hmem, rfl⟩
  rcases Option.isSome_iff_exists.1 ((mem_names_iff _ _).1 hbound) with ⟨found, hfound⟩
  have hsame : found = a := honly _ (mem_of_get? hfound) rfl
  rw [hfound, hsame]

theorem get?_setAll_of_mem {entries : Bindings α} {name : String} {a : α}
    (hmem : (name, a) ∈ entries) (honly : ∀ entry ∈ entries, entry.1 = name → entry.2 = a)
    (b : Bindings α) : (b.setAll entries).get? name = some a := by
  have hfound : get? entries.reverse name = some a :=
    get?_eq_some_of_mem (List.mem_reverse.2 hmem) fun entry hentry =>
      honly entry (List.mem_reverse.1 hentry)
  rw [get?_setAll, hfound, Option.some_or]

/-- Where entries with the same name say the same, each of them is found. -/
theorem get?_setAll_nil_iff {entries : Bindings α}
    (h : ∀ e ∈ entries, ∀ e' ∈ entries, e.1 = e'.1 → e.2 = e'.2) {name : String} {a : α} :
    (setAll [] entries).get? name = some a ↔ (name, a) ∈ entries := by
  constructor
  · intro hget
    rw [get?_setAll, show get? ([] : Bindings α) name = none from rfl, Option.or_none] at hget
    exact List.mem_reverse.1 (mem_of_get? hget)
  · intro hmem
    exact get?_setAll_of_mem hmem (fun entry hentry hname => h entry hentry _ hmem hname) []

/-- The order of bindings with distinct names is of no account. -/
theorem get?_of_perm {b c : Bindings α} (hperm : b.Perm c) (hnodup : c.names.Nodup)
    (name : String) : b.get? name = c.get? name := by
  have hmem {d : Bindings α} (hd : d.Perm c) (a : α) : d.get? name = some a ↔ (name, a) ∈ c := by
    refine ⟨fun hget => hd.mem_iff.1 (mem_of_get? hget), fun hentry => ?_⟩
    refine get?_eq_some_of_mem (hd.mem_iff.2 hentry) fun entry hentry' hname => ?_
    have hsame := List.inj_on_of_nodup_map hnodup (hd.mem_iff.1 hentry') hentry hname
    rw [hsame]
  exact Option.ext fun a => (hmem hperm a).trans (hmem (.refl c) a).symm

end Bindings

/-! ## What the checks promise -/

/-- The number that a global is bound to. -/
def Global.number? (float? : Global → Option Float) (value : Global) : Option Number :=
  (float? value).map Config.globalNumber

namespace Config

open Text (lowerCase)

variable {float? : Global → Option Float}

theorem validate_of_isOk {cfg : Config} (h : (cfg.validate float?).isOk = true) :
    cfg.validate float? = .ok () := by
  cases hchecked : cfg.validate float? with
  | ok u => rfl
  | error e => simp [hchecked, Except.isOk, Except.toBool] at h

/-- A check that has passed leaves what comes after it. -/
theorem ok_of_bind {x : Except ConfigError Unit} {f : Unit → Except ConfigError Unit}
    (h : (x >>= f) = .ok ()) : x = .ok () ∧ f () = .ok () := by
  cases x with
  | ok u => exact ⟨rfl, h⟩
  | error e => cases h

theorem forM_eq_ok {entries : List (String × Global)}
    {check : String × Global → Except ConfigError Unit} (h : entries.forM check = .ok ()) :
    ∀ entry ∈ entries, check entry = .ok () := by
  induction entries with
  | nil => simp
  | cons entry rest ih =>
      have hboth := ok_of_bind h
      exact List.forall_mem_cons.2 ⟨hboth.1, ih hboth.2⟩

/-- Each global has passed its check when the configuration has passed all of them. -/
theorem checkGlobal_of_validate {cfg : Config} (h : cfg.validate float? = .ok ()) :
    ∀ entry ∈ cfg.globals, checkGlobal float? entry.1 entry.2 = .ok () := by
  -- A check that fails ends the others, so each of them has passed.
  have hdepth := (ok_of_bind h).2
  dsimp only at hdepth
  split at hdepth
  · cases hdepth
  split at hdepth
  · cases hdepth
  split at hdepth
  · cases hdepth
  split at hdepth
  · cases hdepth
  exact forM_eq_ok hdepth

theorem checkGlobal_eq_ok {name : String} {value : Global}
    (h : checkGlobal float? name value = .ok ()) :
    validName name ∧ ∃ n, value.number? float? = some n := by
  unfold checkGlobal at h
  split at h
  · cases h
  · next hname =>
    split at h
    · cases h
    · next hnumber =>
      rcases Option.ne_none_iff_exists'.1 (by simpa using hnumber) with ⟨x, hx⟩
      exact ⟨by simpa using hname, globalNumber x, by rw [Global.number?, hx, Option.map_some]⟩

/-- Every global of a configuration that was checked is a number under a valid name. -/
theorem globals_of_validate {cfg : Config} (h : cfg.validate float? = .ok ())
    {entry : String × Global} (hentry : entry ∈ cfg.globals) :
    validName entry.1 ∧ ∃ n, entry.2.number? float? = some n :=
  checkGlobal_eq_ok (checkGlobal_of_validate h entry hentry)

/-! ## Conversion -/

/-- The globals that are numbers in their order, each under its name in lower case. Names may come
more than once. -/
def lowered (float? : Global → Option Float) (globals : Bindings Global) : Bindings Number :=
  globals.filterMap fun entry => (entry.2.number? float?).map (lowerCase entry.1, ·)

theorem globalNumbers_eq (cfg : Config) (float? : Global → Option Float) :
    cfg.globalNumbers float? = Bindings.setAll [] (lowered float? cfg.globals) := by
  rw [globalNumbers, Bindings.setAll, lowered, List.foldl_filterMap]
  congr 1
  funext b entry
  dsimp only
  rw [Global.number?]
  cases float? entry.2 <;> rfl

theorem mem_lowered {globals : Bindings Global} {word : String} {n : Number} :
    (word, n) ∈ lowered float? globals ↔
      ∃ entry ∈ globals, lowerCase entry.1 = word ∧ entry.2.number? float? = some n := by
  simp only [lowered, List.mem_filterMap, Option.map_eq_some_iff, Prod.mk.injEq]
  constructor
  · rintro ⟨entry, hentry, m, hm, hword, rfl⟩
    exact ⟨entry, hentry, hword, hm⟩
  · rintro ⟨entry, hentry, hword, hn⟩
    exact ⟨entry, hentry, n, hn, hword, rfl⟩

/-- Globals that are numbers are converted one by one. -/
theorem forall₂_lowered {globals : Bindings Global}
    (h : ∀ entry ∈ globals, ∃ n, entry.2.number? float? = some n) :
    List.Forall₂ (fun entry converted =>
        converted.1 = lowerCase entry.1 ∧ entry.2.number? float? = some converted.2)
      globals (lowered float? globals) := by
  induction globals with
  | nil => exact .nil
  | cons entry rest ih =>
      have ⟨⟨n, hn⟩, hrest⟩ := List.forall_mem_cons.1 h
      have hcons : lowered float? (entry :: rest) =
          (lowerCase entry.1, n) :: lowered float? rest := by
        simp [lowered, hn]
      rw [hcons]
      exact .cons ⟨rfl, hn⟩ (ih hrest)

theorem names_lowered {globals : Bindings Global}
    (h : ∀ entry ∈ globals, ∃ n, entry.2.number? float? = some n) :
    (lowered float? globals).names = globals.names.map lowerCase := by
  have hconverted := forall₂_lowered h
  generalize lowered float? globals = converted at hconverted
  induction hconverted with
  | nil => rfl
  | cons hentry _ ih =>
      simp only [Bindings.names, List.map_cons] at ih ⊢
      rw [hentry.1, ih fun entry hmem => h entry (List.mem_cons_of_mem _ hmem)]

/-- Two globals say the same about a name when they give it the same number. -/
def Agree (float? : Global → Option Float) (globals : Bindings Global) : Prop :=
  ∀ entry ∈ globals, ∀ other ∈ globals, lowerCase entry.1 = lowerCase other.1 →
    entry.2.number? float? = other.2.number? float?

/-- Where the globals agree, each of them is found under its name. -/
theorem Agree.get?_setAll_lowered {globals : Bindings Global} (h : Agree float? globals)
    {word : String} {n : Number} :
    (Bindings.setAll [] (lowered float? globals)).get? word = some n ↔
      ∃ entry ∈ globals, lowerCase entry.1 = word ∧ entry.2.number? float? = some n := by
  rw [Bindings.get?_setAll_nil_iff, mem_lowered]
  rintro ⟨word, m⟩ hm ⟨word', m'⟩ hm' rfl
  rcases mem_lowered.1 hm with ⟨entry, hentry, hword, hnumber⟩
  rcases mem_lowered.1 hm' with ⟨other, hother, hword', hnumber'⟩
  have hsame := h entry hentry other hother (hword.trans hword'.symm)
  exact Option.some.inj (hnumber.symm.trans (hsame.trans hnumber'))

/-- The global that comes last is found under its name. -/
theorem get?_setAll_lowered_last (globals : Bindings Global) {entry : String × Global} {n : Number}
    (hn : entry.2.number? float? = some n) :
    (Bindings.setAll [] (lowered float? (globals ++ [entry]))).get? (lowerCase entry.1) =
      some n := by
  have hlast : lowered float? (globals ++ [entry]) =
      lowered float? globals ++ [(lowerCase entry.1, n)] := by
    simp [lowered, hn]
  rw [hlast, Bindings.get?_setAll, List.reverse_concat]
  simp [Bindings.get?]

/-- The number under a name is the same in whatever order the globals come if and only if they
agree. -/
theorem get?_of_perm_iff {globals : Bindings Global}
    (hnumbers : ∀ entry ∈ globals, ∃ n, entry.2.number? float? = some n) :
    (∀ first second : Bindings Global, first.Perm globals → second.Perm globals → ∀ word,
        (Bindings.setAll [] (lowered float? first)).get? word =
          (Bindings.setAll [] (lowered float? second)).get? word) ↔
      Agree float? globals := by
  constructor
  · intro hsame entry hentry other hother hword
    rcases hnumbers entry hentry with ⟨n, hn⟩
    rcases hnumbers other hother with ⟨m, hm⟩
    -- Two orders are enough, with the one and with the other in the last place.
    have hlast {g : String × Global} (hg : g ∈ globals) :
        ∃ rest : Bindings Global, (rest ++ [g]).Perm globals := by
      rcases List.append_of_mem hg with ⟨before, behind, rfl⟩
      refine ⟨before ++ behind, ?_⟩
      rw [List.append_assoc]
      exact (List.perm_append_singleton g behind).append_left before
    rcases hlast hentry with ⟨others, hfirst⟩
    rcases hlast hother with ⟨others', hsecond⟩
    have hfound := hsame _ _ hfirst hsecond (lowerCase entry.1)
    rw [get?_setAll_lowered_last others hn, hword, get?_setAll_lowered_last others' hm] at hfound
    rw [hn, hm, hfound]
  · intro hagree first second hfirst hsecond word
    have hperm {order : Bindings Global} (horder : order.Perm globals) (n : Number) :
        (Bindings.setAll [] (lowered float? order)).get? word = some n ↔
          ∃ entry ∈ globals, lowerCase entry.1 = word ∧ entry.2.number? float? = some n := by
      have hagrees : Agree float? order := fun entry hentry other hother =>
        hagree entry (horder.subset hentry) other (horder.subset hother)
      simp only [hagrees.get?_setAll_lowered, horder.mem_iff]
    exact Option.ext fun n => (hperm hfirst n).trans (hperm hsecond n).symm

/-- A configuration that was checked, whatever numbers its values stand for: its globals become as
many numbers as they are if and only if their names are distinct in lower case too, and then each
becomes the number that it stands for, in its place. Under every name the same number is found in
whatever order the globals are taken if and only if those with the same name in lower case stand for
the same number. -/
theorem globalNumbers_lossless_iff {cfg : Config} (hvalid : cfg.validate float? = .ok ()) :
    ((cfg.globalNumbers float?).length = cfg.globals.length ↔
        (cfg.globals.names.map lowerCase).Nodup) ∧
      ((cfg.globals.names.map lowerCase).Nodup →
        List.Forall₂ (fun entry converted =>
            converted.1 = lowerCase entry.1 ∧ entry.2.number? float? = some converted.2)
          cfg.globals (cfg.globalNumbers float?)) ∧
      ((∀ first second : Bindings Global, first.Perm cfg.globals → second.Perm cfg.globals →
          ∀ word, (({ cfg with globals := first } : Config).globalNumbers float?).get? word =
            (({ cfg with globals := second } : Config).globalNumbers float?).get? word) ↔
        ∀ entry ∈ cfg.globals, ∀ other ∈ cfg.globals, lowerCase entry.1 = lowerCase other.1 →
          entry.2.number? float? = other.2.number? float?) := by
  have hnumbers : ∀ entry ∈ cfg.globals, ∃ n, entry.2.number? float? = some n :=
    fun entry hentry => (globals_of_validate hvalid hentry).2
  have hconverted := forall₂_lowered hnumbers
  rw [← names_lowered hnumbers, globalNumbers_eq, hconverted.length_eq]
  refine ⟨Bindings.length_setAll_nil_iff _, ?_, ?_⟩
  · intro hnodup
    rw [Bindings.setAll_of_nodup (by simpa using hnodup), List.nil_append]
    exact hconverted
  · simp only [globalNumbers_eq]
    exact get?_of_perm_iff hnumbers

/-- Two globals with capitals in one of the names. -/
theorem globalNumbers_lossless_width :
    let cfg : Config := { globals := [("Width", .number 3), ("rate", .number 7)] }
    cfg.validate Global.float? = .ok () ∧ (cfg.globals.names.map lowerCase).Nodup ∧
      (cfg.globalNumbers Global.float?).length = 2 ∧
      List.Forall₂ (fun entry converted =>
          converted.1 = lowerCase entry.1 ∧ entry.2.number? Global.float? = some converted.2)
        cfg.globals (cfg.globalNumbers Global.float?) ∧
      ∀ word, (({ cfg with globals := cfg.globals.reverse } : Config).globalNumbers
          Global.float?).get? word =
        (cfg.globalNumbers Global.float?).get? word := by
  intro cfg
  have hvalid : cfg.validate Global.float? = .ok () := validate_of_isOk (by decide +kernel)
  have hwidth : lowerCase "Width" = "width" := by decide +kernel
  have hrate : lowerCase "rate" = "rate" := by decide +kernel
  have hnodup : (cfg.globals.names.map lowerCase).Nodup := by
    simp [cfg, Bindings.names, hwidth, hrate]
  rcases globalNumbers_lossless_iff hvalid with ⟨hlength, hconverted, horder⟩
  have hagree : ∀ entry ∈ cfg.globals, ∀ other ∈ cfg.globals,
      lowerCase entry.1 = lowerCase other.1 → entry.2.number? Global.float? =
        other.2.number? Global.float? := by
    intro entry hentry other hother hword
    rw [Bindings.names, List.map_map] at hnodup
    rw [List.inj_on_of_nodup_map hnodup hentry hother hword]
  exact ⟨hvalid, hnodup, hlength.2 hnodup, hconverted hnodup,
    fun word => horder.2 hagree _ _ (List.reverse_perm _) (List.Perm.refl _) word⟩

/-- Two globals whose names differ in a capital: one of them is lost, and which one hangs on the
order. -/
theorem globalNumbers_collision :
    let cfg : Config := { globals := [("X", .number 1), ("x", .number 2)] }
    cfg.validate Global.float? = .ok () ∧ cfg.globals.names.Nodup ∧
      (cfg.globalNumbers Global.float?).length ≠ cfg.globals.length ∧
      (cfg.globalNumbers Global.float?).get? "x" = some (.int 2) ∧
      (({ cfg with globals := cfg.globals.reverse } : Config).globalNumbers
          Global.float?).get? "x" =
        some (.int 1) := by
  intro cfg
  have hone : Global.number? Global.float? (.number 1) = some (.int 1) := by
    rw [Global.number?, Global.float?, Option.map_some, globalNumber, if_pos (by decide +kernel)]
    exact congrArg (some ∘ Number.int) (by decide +kernel)
  have htwo : Global.number? Global.float? (.number 2) = some (.int 2) := by
    rw [Global.number?, Global.float?, Option.map_some, globalNumber, if_pos (by decide +kernel)]
    exact congrArg (some ∘ Number.int) (by decide +kernel)
  have hcapital : lowerCase "X" = "x" := by decide +kernel
  have hsmall : lowerCase "x" = "x" := by decide +kernel
  have hforth : cfg.globalNumbers Global.float? = [("x", .int 2)] := by
    rw [globalNumbers_eq]
    simp [cfg, lowered, hone, htwo, hcapital, hsmall, Bindings.set]
  have hback : ({ cfg with globals := cfg.globals.reverse } : Config).globalNumbers Global.float? =
      [("x", .int 1)] := by
    rw [globalNumbers_eq]
    simp [cfg, lowered, hone, htwo, hcapital, hsmall, Bindings.set]
  rw [hforth, hback]
  exact ⟨validate_of_isOk (by decide +kernel), by decide, by decide, rfl, rfl⟩

end Config
end Reckoner
