import Mathlib.Tactic.Common
import Reckoner.Proofs.Written

/-!
# How deep a parsed tree is

The limit of a parser is on the statements, negations and signs that stand one inside the other. The
exponent of a power is read one call deeper without being counted, so a limit says nothing about
powers in the exponents of powers. They are all that it misses: for every level that a limit allows,
a tree has a fixed number of levels, and as many more as there are powers in one exponent.

* `Expr.nesting` — the calls that reading a tree takes, one inside the other;
* `Expr.tower` — the powers that stand in the exponents of each other;
* `Reads.within` — the depth of a reading, by the limit and the tallest tower;
* `Program.nesting_lt` — the depth of a parsed program;
* `Program.nesting_unbounded` — the limit alone does not bound it.
-/

namespace Reckoner

/-! ## Nesting -/

mutual

/-- How deep parts stand inside each other. The left operand of an operator stands beside it. -/
def Expr.nesting : Expr → Nat
  | .num _ _ => 0
  | .var _ _ => 0
  | .assign _ _ value => value.nesting + 1
  | .binary _ left right => max left.nesting (right.nesting + 1)
  | .unary _ operand => operand.nesting + 1
  | .sequence statements => Expr.nestingAll statements + 1
  | .choose _ arms => arms.nesting + 1
  | .select _ subject arms => max subject.nesting arms.nesting + 1
  | .loop _ condition body => max condition.nesting (Expr.nestingAll body) + 1

def Expr.nestingAll : List Expr → Nat
  | [] => 0
  | e :: rest => max e.nesting (Expr.nestingAll rest)

def Arms.nesting : Arms → Nat
  | .none => 0
  | .otherwise body => body.nesting
  | .arm guard body rest => max (max guard.nesting body.nesting) rest.nesting

end

/-- How many powers there are, each in the exponent of the one before it. -/
def Expr.tower : Expr → Nat
  | .binary op _ right => if op.kind = .pow then right.tower + 1 else 0
  | _ => 0

theorem Expr.self_mem_parts (e : Expr) : e ∈ e.parts := by
  cases e <;> exact List.mem_cons_self

/-! ## Bounds -/

/-- What a phrase may add to the depth that the remaining levels allow, when no tower is higher than
`t`. -/
def Phrase.slack (t : Nat) : Phrase → Expr → Nat
  | .statement, _ | .group, _ => 0
  | .atom, _ => 1
  | .factor, e | .chain .power, e => e.tower + 1
  | .chain .product, _ => t + 2
  | .chain .sum, _ => t + 3
  | .chain .comparison, _ | .negation, _ => t + 4
  | .chain .logic, _ => t + 5

/-- The depth that a number of further levels allows. -/
def allowance (t levels : Nat) : Nat :=
  (5 + t) * levels

/-- The tree is no deeper than a number of further levels allows. -/
def Symbol.Within (t levels : Nat) : (s : Symbol) → s.Tree → Prop
  | .phrase p, e => Expr.nesting e < allowance t levels + p.slack t e
  | .conditional, (condition, body) =>
    condition.nesting < allowance t levels ∧ body.nesting < allowance t levels
  | .chooseArms, arms | .selectArms, arms => Arms.nesting arms ≤ allowance t levels - 1
  | .statements, es => Expr.nestingAll es ≤ allowance t levels - 1

theorem allowance_of_fits {t limit d : Nat} (hlimit : 0 < limit) (h : Fits limit d) :
    allowance t (limit - d) = allowance t (limit - (d + 1)) + (5 + t) := by
  have hlevels : limit - d = limit - (d + 1) + 1 := by
    rcases h with h | h <;> omega
  rw [hlevels, allowance, Nat.mul_succ, allowance]

section

variable {limit d t : Nat}

/-- Behind an operator other than that of powers an operand adds one level. -/
theorem Phrase.slack_first_lt {level : Level} (hlevel : level ≠ .power) {right : Expr}
    (htower : right.tower ≤ t) (e : Expr) :
    level.first.slack t right < (Phrase.chain level).slack t e := by
  cases level with
  | logic => exact Nat.lt_succ_self _
  | comparison => exact Nat.lt_succ_self _
  | sum => exact Nat.lt_succ_self _
  | product => exact Nat.lt_succ_of_le (Nat.succ_le_succ htower)
  | power => exact absurd rfl hlevel

theorem Phrase.slack_chain {level : Level} (hlevel : level ≠ .power) (e e' : Expr) :
    (Phrase.chain level).slack t e = (Phrase.chain level).slack t e' := by
  cases level with
  | power => exact absurd rfl hlevel
  | _ => rfl

/-- Each symbol adds to the depth at most what it may, and where a level is counted all that was
added is made up for. -/
theorem Reads.within {s : Symbol} {tree : s.Tree} {ts : List Token}
    (h : Reads limit d s tree ts) (hlimit : 0 < limit)
    (htowers : ∀ part ∈ s.parts tree, part.tower ≤ t) : s.Within t (limit - d) tree := by
  induction h with
  | declare hfits _ _ _ _ ih =>
      have hvalue := ih (List.forall_mem_cons.1 htowers).2
      have hallowed := allowance_of_fits (t := t) hlimit hfits
      simp only [Symbol.Within, Phrase.slack, Expr.nesting] at *
      omega
  | assign hfits _ _ _ ih =>
      have hvalue := ih (List.forall_mem_cons.1 htowers).2
      have hallowed := allowance_of_fits (t := t) hlimit hfits
      simp only [Symbol.Within, Phrase.slack, Expr.nesting] at *
      omega
  | expression hfits _ ih =>
      have hlogic := ih htowers
      have hallowed := allowance_of_fits (t := t) hlimit hfits
      simp only [Symbol.Within, Phrase.slack] at *
      omega
  | @first d level e _ _ ih =>
      have hfirst := ih htowers
      by_cases hlevel : level = .power
      · subst hlevel
        simp only [Symbol.Within, Phrase.slack, Level.first] at *
        omega
      · have hslack := Phrase.slack_first_lt hlevel (htowers e e.self_mem_parts) e
        simp only [Symbol.Within] at *
        omega
  | @joined d level op left right _ _ hlevel _ _ _ ihleft ihright =>
      obtain ⟨hparts, hrights⟩ := List.forall_mem_append.1 (List.forall_mem_cons.1 htowers).2
      have hleft := ihleft hparts
      have hright := ihright hrights
      have hslack := Phrase.slack_first_lt hlevel (hrights right right.self_mem_parts) left
      have hsame := Phrase.slack_chain (t := t) hlevel (.binary op.operator left right) left
      simp only [Symbol.Within, Expr.nesting] at *
      omega
  | @raised d op left right _ _ hop _ _ ihleft ihright =>
      obtain ⟨hparts, hrights⟩ := List.forall_mem_append.1 (List.forall_mem_cons.1 htowers).2
      have hleft := ihleft hparts
      have hright := ihright hrights
      -- The only level that is not counted: the tower is what grows instead.
      have htower : (Expr.binary op.operator left right).tower = right.tower + 1 := if_pos hop
      simp only [Symbol.Within, Phrase.slack, Expr.nesting] at *
      omega
  | negated hfits _ _ ih =>
      have hoperand := ih (List.forall_mem_cons.1 htowers).2
      have hallowed := allowance_of_fits (t := t) hlimit hfits
      simp only [Symbol.Within, Phrase.slack, Expr.nesting] at *
      omega
  | compared _ ih => exact ih htowers
  | @signed d op e _ hfits _ _ ih =>
      have hparts := (List.forall_mem_cons.1 htowers).2
      have hoperand := ih hparts
      have htower := hparts e e.self_mem_parts
      have hallowed := allowance_of_fits (t := t) hlimit hfits
      simp only [Symbol.Within, Phrase.slack, Expr.nesting] at *
      omega
  | unsigned _ ih => exact ih htowers
  | number _ _ => exact Nat.succ_pos _
  | named _ => exact Nat.succ_pos _
  | grouped _ ih => exact Nat.lt_succ_of_lt (ih htowers)
  | choose _ _ _ ihfirst ihothers =>
      obtain ⟨hfirst, hothers⟩ := List.forall_mem_append.1 (List.forall_mem_cons.1 htowers).2
      have hbodies := ihfirst hfirst
      have harms := ihothers hothers
      simp only [Symbol.Within, Phrase.slack, Expr.nesting, Arms.nesting] at *
      omega
  | select _ _ _ ihsubject iharms =>
      obtain ⟨hfirst, hothers⟩ := List.forall_mem_append.1 (List.forall_mem_cons.1 htowers).2
      have hsubject := ihsubject hfirst
      have harms := iharms hothers
      simp only [Symbol.Within, Phrase.slack, Expr.nesting] at *
      omega
  | loop _ _ _ _ _ ihcondition ihbody =>
      obtain ⟨hfirst, hothers⟩ := List.forall_mem_append.1 (List.forall_mem_cons.1 htowers).2
      have hcondition := ihcondition hfirst
      have hbody := ihbody hothers
      simp only [Symbol.Within, Phrase.slack, Expr.nesting] at *
      omega
  | group _ _ _ ih => exact ih htowers
  | conditional _ _ _ ihcondition ihbody =>
      obtain ⟨hfirst, hothers⟩ := List.forall_mem_append.1 htowers
      exact ⟨ihcondition hfirst, ihbody hothers⟩
  | endif _ => exact Nat.zero_le _
  | otherwise _ _ _ ih => exact Nat.le_sub_one_of_lt (ih htowers)
  | elif _ _ _ ihfirst ihothers =>
      obtain ⟨hfirst, hothers⟩ := List.forall_mem_append.1 htowers
      have hbodies := ihfirst hfirst
      have harms := ihothers hothers
      simp only [Symbol.Within, Arms.nesting] at *
      omega
  | endswitch _ => exact Nat.zero_le _
  | default _ _ _ _ ih => exact Nat.le_sub_one_of_lt (ih htowers)
  | case _ _ _ _ _ ihguard ihbody ihothers =>
      obtain ⟨hfirst, hothers⟩ := List.forall_mem_append.1 htowers
      obtain ⟨hguards, hbodies⟩ := List.forall_mem_append.1 hfirst
      have hguard := ihguard hguards
      have hbody := ihbody hbodies
      have harms := ihothers hothers
      simp only [Symbol.Within, Phrase.slack, Arms.nesting] at *
      omega
  | nil => exact Nat.zero_le _
  | cons _ _ _ ihfirst ihothers =>
      obtain ⟨hstatement, hrest⟩ := List.forall_mem_append.1 htowers
      have hfirst := ihfirst hstatement
      have hothers := ihothers hrest
      simp only [Symbol.Within, Phrase.slack, Expr.nestingAll] at *
      omega

end

namespace Parser

/-- Each statement of a program was read at the outermost level. -/
theorem statement_of_program {r : Rules} {ts : List Token} {es : Program}
    (h : program r ts = .ok es) :
    ∀ e ∈ es, ∃ taken, Reads r.limit 0 (.phrase .statement) e taken := by
  induction hn : ts.length using Nat.strongRecOn generalizing ts es with
  | ind n ih =>
      subst hn
      cases ts with
      | nil =>
          rw [program_nil] at h
          cases h
          exact List.forall_mem_nil _
      | cons t us =>
          by_cases heof : t.kind = .eof
          · rw [program, if_pos (by simpa using heof)] at h
            cases h
            exact List.forall_mem_nil _
          · obtain ⟨first, others, mid, rfl, hfirst, hothers⟩ := (program_cons heof).1 h
            obtain ⟨taken, -, hreads, -⟩ := sound .statement _ 0 first mid hfirst
            exact List.forall_mem_cons.2
              ⟨⟨taken, hreads⟩, ih mid.length hfirst.shorter hothers rfl⟩

end Parser

/-! ## Towers -/

/-- `2 ^ 2 ^ … ^ 2` with a number of powers, from a column on. -/
def towerTokens : Nat → Nat → List Token
  | 0, column => [⟨.int, "2", ⟨1, column⟩⟩]
  | n + 1, column =>
    ⟨.int, "2", ⟨1, column⟩⟩ :: ⟨.pow, "^", ⟨1, column + 1⟩⟩ :: towerTokens n (column + 2)

/-- The tree of `2 ^ 2 ^ … ^ 2`. -/
def towerExpr : Nat → Nat → Expr
  | 0, column => .num (.int 2) ⟨1, column⟩
  | n + 1, column => .binary ⟨.pow, "^"⟩ (.num (.int 2) ⟨1, column⟩) (towerExpr n (column + 2))

theorem nesting_towerExpr (n column : Nat) : (towerExpr n column).nesting = n := by
  induction n generalizing column with
  | zero => rfl
  | succ n ih => simp [towerExpr, Expr.nesting, ih]

theorem reads_tower (limit d n column : Nat) :
    Reads limit d (.phrase .factor) (towerExpr n column) (towerTokens n column) := by
  have htwo (column : Nat) : Reads limit d (.phrase .atom) (.num (.int 2) ⟨1, column⟩)
      [⟨.int, "2", ⟨1, column⟩⟩] :=
    @Reads.number _ _ ⟨.int, "2", ⟨1, column⟩⟩ _ (.inl rfl) (.int rfl (rfl : readInt "2" = .ok 2))
  induction n generalizing column with
  | zero => exact .unsigned (.first (htwo column))
  | succ n ih =>
      exact .unsigned (@Reads.raised _ _ ⟨.pow, "^", ⟨1, column + 1⟩⟩ _ _ _ _ rfl (htwo column)
        (ih (column + 2)))

/-- No limit keeps towers out. -/
theorem Program.ofTokens_tower {limit : Nat} (hlimit : 0 < limit) (n : Nat) {stop : Token}
    (hstop : stop.kind = .eof) :
    Program.ofTokens limit (towerTokens n 1 ++ [stop]) = .ok [towerExpr n 1] := by
  rw [Program.ofTokens_concat hstop]
  have hfactor := reads_tower limit 1 n 1
  have hstatement : Reads limit 0 (.phrase .statement) (towerExpr n 1) (towerTokens n 1) :=
    .expression (.inr hlimit) (.first (.compared (.first (.first (.first hfactor)))))
  have hstatements : Reads limit 0 .statements [towerExpr n 1] (towerTokens n 1 ++ []) :=
    .cons (by simp) hstatement .nil
  rw [List.append_nil] at hstatements
  exact Parser.program_of_reads (r := ⟨limit, stop⟩) hstatements

/-! ## Programs -/

/-- For every level of its limit a parser accepts five levels of nesting and one more for each power
of the tallest tower. -/
theorem Program.nesting_lt {limit t : Nat} {tokens : List Token} {program : Program}
    (hlimit : 0 < limit) (h : Program.ofTokens limit tokens = .ok program) :
    ∀ e ∈ program, (∀ part ∈ e.parts, part.tower ≤ t) → e.nesting < (5 + t) * limit := by
  intro e he htowers
  obtain ⟨taken, hreads⟩ := Parser.statement_of_program h e he
  exact hreads.within hlimit htowers

/-- One power, under a limit of one level. -/
theorem Program.nesting_lt_power :
    let tokens := towerTokens 1 1 ++ [⟨.eof, "", ⟨1, 4⟩⟩]
    0 < 1 ∧ Program.ofTokens 1 tokens = .ok [towerExpr 1 1] ∧
      (∀ part ∈ (towerExpr 1 1).parts, part.tower ≤ 1) ∧
      (towerExpr 1 1).nesting < (5 + 1) * 1 := by
  have hlimit : 0 < 1 := Nat.one_pos
  have hstop : Token.kind ⟨.eof, "", ⟨1, 4⟩⟩ = .eof := rfl
  have hparsed := Program.ofTokens_tower hlimit 1 hstop
  have htowers : ∀ part ∈ (towerExpr 1 1).parts, part.tower ≤ 1 := by
    simp [towerExpr, Expr.parts, Expr.tower]
  exact ⟨hlimit, hparsed, htowers,
    Program.nesting_lt hlimit hparsed _ (List.mem_singleton_self _) htowers⟩

/-- The nesting of parsed statements is not bounded by a multiple of the limit. -/
theorem Program.nesting_unbounded :
    ¬ ∃ c, ∀ limit, 0 < limit → ∀ tokens program,
      Program.ofTokens limit tokens = .ok program → ∀ e ∈ program, e.nesting ≤ c * limit := by
  rintro ⟨c, h⟩
  have hstop : Token.kind ⟨.eof, "", .start⟩ = .eof := rfl
  have hparsed := Program.ofTokens_tower Nat.one_pos (c + 1) hstop
  have hle := h 1 Nat.one_pos _ _ hparsed (towerExpr (c + 1) 1) (List.mem_singleton_self _)
  rw [nesting_towerExpr] at hle
  omega

end Reckoner
