import Reckoner.Text.Blank
import Reckoner.Text.Letter
import Reckoner.Text.LowerCase

/-!
# Characters of words

What the tables of characters promise about words: no character of a word is blank, and putting a
word in lower case gives a word that is already in lower case.

* `not_isBlank_of_isWordStart`, `not_isDigit_of_isWordStart` — a word begins neither like a blank
  nor like a number;
* `not_isBlank_of_isWordPart` — and goes on with no blank;
* `lowerChar_lowerChar` — a character in lower case stays as it is;
* `isWordStart_lowerChar`, `isWordPart_lowerChar` — the lower case of a word is a word.

Each table is looked through once, range against range, by the kernel; the statements about single
characters follow from these looks.
-/

namespace Reckoner.Text

/-! ## Ranges -/

/-- One of the ranges holds all code points from `low` to `high`. -/
def Ranges.covers (ranges : Ranges) (low high : Nat) : Bool :=
  ranges.any fun r => Nat.ble r.1 low && Nat.ble high r.2

/-- None of the ranges holds a code point from `low` to `high`. -/
def Ranges.avoids (ranges : Ranges) (low high : Nat) : Bool :=
  ranges.all fun r => Nat.blt r.2 low || Nat.blt high r.1

theorem Ranges.has_of_covers {ranges : Ranges} {low high : Nat} {c : Char}
    (h : ranges.covers low high) (hlow : low ≤ c.toNat) (hhigh : c.toNat ≤ high) :
    ranges.has c := by
  rcases List.any_eq_true.1 h with ⟨r, hr, hin⟩
  simp only [Bool.and_eq_true, Nat.ble_eq] at hin
  refine List.any_eq_true.2 ⟨r, hr, ?_⟩
  simp only [Bool.and_eq_true, decide_eq_true_eq]
  omega

theorem Ranges.not_has_of_avoids {ranges : Ranges} {low high : Nat} {c : Char}
    (h : ranges.avoids low high) (hlow : low ≤ c.toNat) (hhigh : c.toNat ≤ high) :
    ranges.has c = false := by
  refine List.any_eq_false.2 ?_
  intro r hr
  have hout := List.all_eq_true.1 h r hr
  simp only [Bool.or_eq_true, Nat.blt_eq] at hout
  simp only [Bool.and_eq_true, decide_eq_true_eq]
  omega

/-- The blanks, as ranges. -/
def blankRanges : Ranges :=
  [(9, 13), (32, 32), (0x85, 0x85), (0xA0, 0xA0), (0x1680, 0x1680), (0x2000, 0x200A),
    (0x2028, 0x2029), (0x202F, 0x202F), (0x205F, 0x205F), (0x3000, 0x3000)]

theorem letterRanges_avoid_blanks :
    blankRanges.all (fun b => letterRanges.avoids b.1 b.2) = true := by
  decide +kernel

theorem decimalRanges_avoid_blanks :
    blankRanges.all (fun b => decimalRanges.avoids b.1 b.2) = true := by
  decide +kernel

theorem letterRanges_avoid_ascii : letterRanges.avoids 0 127 = true := by
  decide +kernel

theorem letterRanges_beyond {c : Char} (h : letterRanges.has c) : 128 ≤ c.toNat := by
  by_cases hlow : 128 ≤ c.toNat
  · exact hlow
  · have hout := Ranges.not_has_of_avoids letterRanges_avoid_ascii (Nat.zero_le c.toNat) (by omega)
    simp [hout] at h

theorem exists_blankRange {c : Char} (h : isBlank c) :
    ∃ b ∈ blankRanges, b.1 ≤ c.toNat ∧ c.toNat ≤ b.2 := by
  simp only [isBlank, Bool.or_eq_true, Bool.and_eq_true, decide_eq_true_eq, beq_iff_eq] at h
  simp only [blankRanges, List.mem_cons, List.not_mem_nil, or_false, exists_eq_or_imp,
    exists_eq_left]
  omega

/-! ## How words begin -/

theorem isAsciiLetter_iff {c : Char} :
    isAsciiLetter c ↔
      (97 ≤ c.toNat ∧ c.toNat ≤ 122) ∨ (65 ≤ c.toNat ∧ c.toNat ≤ 90) := by
  simp [isAsciiLetter, Char.le_def, UInt32.le_iff_toNat_le]

theorem isDigit_iff {c : Char} : isDigit c ↔ 48 ≤ c.toNat ∧ c.toNat ≤ 57 := by
  simp [isDigit, Char.le_def, UInt32.le_iff_toNat_le]

theorem isLetter_iff {c : Char} :
    isLetter c ↔ isAsciiLetter c ∨ (128 ≤ c.toNat ∧ letterRanges.has c) := by
  simp [isLetter]

theorem not_isBlank_of_isDigit {c : Char} (h : isDigit c) : isBlank c = false := by
  have hrange := isDigit_iff.1 h
  simp only [isBlank, Bool.or_eq_false_iff, Bool.and_eq_false_iff, decide_eq_false_iff_not,
    beq_eq_false_iff_ne]
  omega

theorem not_isBlank_of_isLetter {c : Char} (h : isLetter c) : isBlank c = false := by
  cases hblank : isBlank c with
  | false => rfl
  | true =>
      rcases exists_blankRange hblank with ⟨b, hb, hlow, hhigh⟩
      -- Letters of ASCII are compared by their numbers, all others through the table.
      rcases isLetter_iff.1 h with hascii | ⟨hbeyond, hhas⟩
      · have hrange := isAsciiLetter_iff.1 hascii
        simp only [blankRanges, List.mem_cons, List.not_mem_nil, or_false] at hb
        rcases hb with rfl | rfl | rfl | rfl | rfl | rfl | rfl | rfl | rfl | rfl <;> omega
      · have havoid := List.all_eq_true.1 letterRanges_avoid_blanks b hb
        simp [Ranges.not_has_of_avoids havoid hlow hhigh] at hhas

theorem not_isBlank_of_isWordStart {c : Char} (h : isWordStart c) : isBlank c = false := by
  rcases Bool.or_eq_true .. ▸ h with hletter | hunder
  · exact not_isBlank_of_isLetter hletter
  · rw [eq_of_beq hunder]
    rfl

theorem not_isBlank_of_isDecimal {c : Char} (h : isDecimal c) : isBlank c = false := by
  cases hblank : isBlank c with
  | false => rfl
  | true =>
      rcases exists_blankRange hblank with ⟨b, hb, hlow, hhigh⟩
      rcases Bool.or_eq_true .. ▸ h with hdigit | hbeyond
      · exact (hblank.symm.trans (not_isBlank_of_isDigit hdigit))
      · have havoid := List.all_eq_true.1 decimalRanges_avoid_blanks b hb
        simp [Ranges.not_has_of_avoids havoid hlow hhigh] at hbeyond

theorem not_isBlank_of_isWordPart {c : Char} (h : isWordPart c) : isBlank c = false := by
  simp only [isWordPart, Bool.or_eq_true, beq_iff_eq] at h
  rcases h with (hletter | hdecimal) | rfl
  · exact not_isBlank_of_isLetter hletter
  · exact not_isBlank_of_isDecimal hdecimal
  · rfl

theorem not_isDigit_of_isWordStart {c : Char} (h : isWordStart c) : isDigit c = false := by
  cases hdigit : isDigit c with
  | false => rfl
  | true =>
      have hrange := isDigit_iff.1 hdigit
      rcases Bool.or_eq_true .. ▸ h with hletter | hunder
      · rcases isLetter_iff.1 hletter with hascii | ⟨hbeyond, -⟩
        · have hletters := isAsciiLetter_iff.1 hascii
          omega
        · omega
      · rw [eq_of_beq hunder] at hdigit
        exact absurd hdigit (by decide)

/-! ## Lower case -/

/-- The run gives a lower-case form to the code point. -/
def inRun (n : Nat) (run : Nat × Nat × Nat × Nat) : Bool :=
  run.1 ≤ n && n ≤ run.2.1 && (n - run.1) % run.2.2.1 == 0

theorem inRun_iff {n : Nat} {run : Nat × Nat × Nat × Nat} :
    inRun n run ↔ run.1 ≤ n ∧ n ≤ run.2.1 ∧ (n - run.1) % run.2.2.1 = 0 := by
  simp [inRun, and_assoc]

/-- The lower-case forms of a run are characters, no capitals of ASCII, and in no other run. A run
of every second character may lie between the forms of another. -/
def settled (run : Nat × Nat × Nat × Nat) : Bool :=
  let high := run.2.2.2 + (run.2.1 - run.1)
  Nat.blt 90 run.2.2.2 &&
    (Nat.blt high 0xD800 || (Nat.blt 0xDFFF run.2.2.2 && Nat.blt high 0x110000)) &&
    lowerCaseRuns.all fun other =>
      Nat.blt other.2.1 run.2.2.2 || Nat.blt high other.1 ||
        (Nat.beq other.2.2.1 2 && (Nat.beq run.2.2.1 2 || Nat.beq run.1 run.2.1) &&
          Nat.beq ((run.2.2.2 + other.1) % 2) 1)

theorem lowerCaseRuns_settled : lowerCaseRuns.all settled = true := by
  decide +kernel

/-- The characters of a run are no letters, or their lower-case forms are letters too. -/
def keepsLetters (run : Nat × Nat × Nat × Nat) : Bool :=
  let high := run.2.2.2 + (run.2.1 - run.1)
  (Nat.ble 97 run.2.2.2 && Nat.ble high 122) || letterRanges.covers run.2.2.2 high ||
    letterRanges.avoids run.1 run.2.1

theorem lowerCaseRuns_keepLetters : lowerCaseRuns.all keepsLetters = true := by
  decide +kernel

theorem lowerCaseRuns_avoid_decimals :
    lowerCaseRuns.all (fun run => decimalRanges.avoids run.1 run.2.1) = true := by
  decide +kernel

theorem toNat_ofNat {n : Nat} (h : n.isValidChar) : (Char.ofNat n).toNat = n := by
  rw [Char.ofNat, dif_pos h]
  rfl

theorem capital_iff {c : Char} :
    ('A' ≤ c && c ≤ 'Z') = true ↔ 65 ≤ c.toNat ∧ c.toNat ≤ 90 := by
  simp [Char.le_def, UInt32.le_iff_toNat_le]

/-- Beyond ASCII the first run that holds a character decides. -/
theorem lowerChar_beyond {c : Char} (h : 128 ≤ c.toNat) :
    lowerChar c = (lowerCaseRuns.find? (inRun c.toNat)).elim c
      fun run => Char.ofNat (run.2.2.2 + (c.toNat - run.1)) := by
  have hcapital : ¬ ('A' ≤ c && c ≤ 'Z') = true := by
    rw [capital_iff]
    omega
  rw [lowerChar, if_neg hcapital, if_neg (by omega)]
  -- The condition of the search is `inRun`, written out.
  split
  · next heq =>
    have hfind : lowerCaseRuns.find? (inRun c.toNat) = _ := heq
    rw [hfind]
    rfl
  · next heq =>
    have hfind : lowerCaseRuns.find? (inRun c.toNat) = none := heq
    rw [hfind]
    rfl

/-- A character that is no capital of ASCII and in no run is its own lower-case form. -/
theorem lowerChar_eq_self {c : Char} (hascii : ¬ (65 ≤ c.toNat ∧ c.toNat ≤ 90))
    (hruns : ∀ run ∈ lowerCaseRuns, inRun c.toNat run = false) : lowerChar c = c := by
  by_cases hlow : c.toNat < 128
  · rw [lowerChar, if_neg (by rwa [capital_iff]), if_pos hlow]
  · have hnone : lowerCaseRuns.find? (inRun c.toNat) = none := by
      refine List.find?_eq_none.2 ?_
      intro run hrun
      simp [hruns run hrun]
    rw [lowerChar_beyond (by omega), hnone, Option.elim_none]

/-- The three ways to find a lower-case form. -/
theorem lowerChar_cases (c : Char) :
    lowerChar c = c ∨
    (65 ≤ c.toNat ∧ c.toNat ≤ 90 ∧ lowerChar c = Char.ofNat (c.toNat + 32)) ∨
    ∃ run ∈ lowerCaseRuns, 128 ≤ c.toNat ∧ inRun c.toNat run ∧
      lowerChar c = Char.ofNat (run.2.2.2 + (c.toNat - run.1)) := by
  by_cases hcapital : 65 ≤ c.toNat ∧ c.toNat ≤ 90
  · refine .inr (.inl ⟨hcapital.1, hcapital.2, ?_⟩)
    rw [lowerChar, if_pos (capital_iff.2 hcapital)]
  · by_cases hlow : c.toNat < 128
    · refine .inl ?_
      rw [lowerChar, if_neg (by rwa [capital_iff]), if_pos hlow]
    · rw [lowerChar_beyond (by omega)]
      cases hfind : lowerCaseRuns.find? (inRun c.toNat) with
      | none => exact .inl rfl
      | some run =>
          exact .inr (.inr ⟨run, List.mem_of_find?_eq_some hfind, by omega,
            List.find?_some hfind, rfl⟩)

/-- What is known of the lower-case form that a run gives. -/
theorem settled_form {run : Nat × Nat × Nat × Nat} (hrun : run ∈ lowerCaseRuns) {n : Nat}
    (hin : inRun n run) :
    (run.2.2.2 + (n - run.1)).isValidChar ∧ 90 < run.2.2.2 ∧
      ∀ other ∈ lowerCaseRuns, inRun (run.2.2.2 + (n - run.1)) other = false := by
  have hsettled := List.all_eq_true.1 lowerCaseRuns_settled run hrun
  simp only [settled, Bool.and_eq_true, Bool.or_eq_true, Nat.blt_eq, List.all_eq_true,
    Nat.beq_eq] at hsettled
  rcases hsettled with ⟨⟨hascii, hvalid⟩, hclear⟩
  rcases inRun_iff.1 hin with ⟨hfirst, hlast, hstep⟩
  refine ⟨?_, hascii, ?_⟩
  · simp only [Nat.isValidChar]
    omega
  · intro other hother
    cases hform : inRun (run.2.2.2 + (n - run.1)) other with
    | false => rfl
    | true =>
        rcases inRun_iff.1 hform with ⟨hofirst, holast, hostep⟩
        -- Another run lies below the forms, above them, or between them with the other parity.
        rcases hclear other hother with (hbelow | habove) | ⟨⟨htwo, hodd⟩, hparity⟩
        · omega
        · omega
        · rw [htwo] at hostep
          rcases hodd with hrunTwo | hsingle
          · rw [hrunTwo] at hstep
            omega
          · omega

theorem lowerChar_lowerChar (c : Char) : lowerChar (lowerChar c) = lowerChar c := by
  rcases lowerChar_cases c with hself | ⟨hlow, hhigh, hform⟩ | ⟨run, hrun, hbeyond, hin, hform⟩
  · rw [hself, hself]
  -- A capital of ASCII becomes a small letter, which is no capital.
  · have hcode : (Char.ofNat (c.toNat + 32)).toNat = c.toNat + 32 :=
      toNat_ofNat (by simp only [Nat.isValidChar]; omega)
    have hsmall : ¬ (65 ≤ c.toNat + 32 ∧ c.toNat + 32 ≤ 90) := by omega
    rw [hform, lowerChar, if_neg (by rwa [capital_iff, hcode]), if_pos (by rw [hcode]; omega)]
  -- The form that a run gives is in no run again.
  · rcases settled_form hrun hin with ⟨hvalid, hascii, hclear⟩
    rw [hform]
    refine lowerChar_eq_self ?_ ?_
    · rw [toNat_ofNat hvalid]
      omega
    · rw [toNat_ofNat hvalid]
      exact hclear

theorem isLetter_lowerChar {c : Char} (h : isLetter c) : isLetter (lowerChar c) := by
  rcases lowerChar_cases c with hself | ⟨hlow, hhigh, hform⟩ | ⟨run, hrun, hbeyond, hin, hform⟩
  · rwa [hself]
  · have hcode : (Char.ofNat (c.toNat + 32)).toNat = c.toNat + 32 :=
      toNat_ofNat (by simp only [Nat.isValidChar]; omega)
    rw [hform]
    exact isLetter_iff.2 (.inl (isAsciiLetter_iff.2 (by omega)))
  · rcases settled_form hrun hin with ⟨hvalid, hascii, -⟩
    rcases inRun_iff.1 hin with ⟨hfirst, hlast, -⟩
    have hcode := toNat_ofNat hvalid
    have hkeeps := List.all_eq_true.1 lowerCaseRuns_keepLetters run hrun
    simp only [keepsLetters, Bool.or_eq_true, Bool.and_eq_true, Nat.ble_eq] at hkeeps
    rw [hform]
    -- The forms are small letters of ASCII or all in the table, or the run has no letters.
    rcases hkeeps with (hsmall | hcovers) | havoids
    · exact isLetter_iff.2 (.inl (isAsciiLetter_iff.2 (by omega)))
    · have hhas := Ranges.has_of_covers (c := Char.ofNat (run.2.2.2 + (c.toNat - run.1))) hcovers
        (by omega) (by omega)
      by_cases hsmall : 128 ≤ run.2.2.2 + (c.toNat - run.1)
      · exact isLetter_iff.2 (.inr ⟨by omega, hhas⟩)
      · exact absurd (letterRanges_beyond hhas) (by omega)
    · -- A run outside the letters does not hold `c`.
      rcases isLetter_iff.1 h with hascii | ⟨-, hhas⟩
      · have hrange := isAsciiLetter_iff.1 hascii
        omega
      · simp [Ranges.not_has_of_avoids havoids hfirst hlast] at hhas

theorem lowerChar_of_isDecimal {c : Char} (h : isDecimal c) : lowerChar c = c := by
  rcases lowerChar_cases c with hself | ⟨hlow, hhigh, -⟩ | ⟨run, hrun, hbeyond, hin, -⟩
  · exact hself
  -- Neither the capitals nor the runs hold a decimal digit.
  all_goals
    rcases Bool.or_eq_true .. ▸ h with hdigit | hrange
    · have hdigits := isDigit_iff.1 hdigit
      omega
  · simp only [Bool.and_eq_true, decide_eq_true_eq] at hrange
    omega
  · simp only [Bool.and_eq_true, decide_eq_true_eq] at hrange
    rcases inRun_iff.1 hin with ⟨hfirst, hlast, -⟩
    have havoids := List.all_eq_true.1 lowerCaseRuns_avoid_decimals run hrun
    simp [Ranges.not_has_of_avoids havoids hfirst hlast] at hrange

/-- The lower case of the first character of a word can begin a word. -/
theorem isWordStart_lowerChar {c : Char} (h : isWordStart c) : isWordStart (lowerChar c) := by
  rcases Bool.or_eq_true .. ▸ h with hletter | hunder
  · exact Bool.or_eq_true_iff.2 (.inl (isLetter_lowerChar hletter))
  · rw [eq_of_beq hunder]
    decide

/-- The lower case of a character of a word is one. -/
theorem isWordPart_lowerChar {c : Char} (h : isWordPart c) : isWordPart (lowerChar c) := by
  simp only [isWordPart, Bool.or_eq_true, beq_iff_eq] at h ⊢
  rcases h with (hletter | hdecimal) | hunder
  · exact .inl (.inl (isLetter_lowerChar hletter))
  · exact .inl (.inr (by rwa [lowerChar_of_isDecimal hdecimal]))
  · rw [hunder]
    decide

end Reckoner.Text
