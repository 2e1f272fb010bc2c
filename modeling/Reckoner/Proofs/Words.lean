import Mathlib.Algebra.Group.Int.Defs
import Mathlib.Algebra.Group.Nat.Defs
import Reckoner.Number.Basic

/-!
# Words and the integers they stand for

Arithmetic of words computes modulo `2 ^ 64` and looks afterwards whether something was lost. The
tests it makes are exact: a sum, a difference or a product is given up only where no word has that
value.

* `Word.InRange` — the integers that are words;
* `Word.add?_eq`, `Word.sub?_eq`, `Word.mul?_eq` — each operation is the one on integers, followed
  by a look at the range;
* `Word.floorMod_spec` — the remainder, with the sign of the divisor;
* `Number.int_arithmetic` — what becomes of numbers that are integers.
-/

namespace Reckoner

namespace Word

/-! ## The range of words -/

/-- The integer is the value of a word. -/
def InRange (i : Int) : Prop :=
  -2 ^ 63 ≤ i ∧ i ≤ 2 ^ 63 - 1

instance (i : Int) : Decidable (InRange i) :=
  inferInstanceAs (Decidable (_ ∧ _))

theorem inRange_toInt (w : Int64) : InRange w.toInt := by
  have hlow := w.le_toInt
  have hhigh := w.toInt_lt
  unfold InRange
  omega

theorem bmod_of_inRange {i : Int} (h : InRange i) : i.bmod (2 ^ 64) = i := by
  unfold InRange at h
  exact Int.bmod_eq_of_le (by omega) (by omega)

theorem toInt_ofInt_of_inRange {i : Int} (h : InRange i) : (Int64.ofInt i).toInt = i := by
  unfold InRange at h
  exact Int64.toInt_ofInt_of_le h.1 (by omega)

theorem ofInt?_of_inRange {i : Int} (h : InRange i) : ofInt? i = some (Int64.ofInt i) := by
  rw [ofInt?, Int64.toInt_minValue, Int64.toInt_maxValue]
  exact if_pos h

theorem ofInt?_of_not_inRange {i : Int} (h : ¬ InRange i) : ofInt? i = none := by
  rw [ofInt?, Int64.toInt_minValue, Int64.toInt_maxValue]
  exact if_neg h

/-- A word computed modulo `2 ^ 64`, with a test that holds exactly in the range. -/
theorem checked_eq_ofInt? {p : Prop} [Decidable p] {w : Int64} {i : Int} (hp : p ↔ InRange i)
    (hw : w.toInt = i.bmod (2 ^ 64)) : (if p then some w else none) = ofInt? i := by
  by_cases h : InRange i
  · rw [if_pos (hp.2 h), ofInt?_of_inRange h]
    refine congrArg some (Int64.toInt_inj.1 ?_)
    rw [hw, bmod_of_inRange h, toInt_ofInt_of_inRange h]
  · rw [if_neg fun hholds => h (hp.1 hholds), ofInt?_of_not_inRange h]

/-! ## Sums and differences -/

/-- Of integers less than `2 ^ 64` away from zero, one turn of the circle gives the remainder. -/
theorem bmod_cases {i : Int} (hlow : -2 ^ 64 ≤ i) (hhigh : i < 2 ^ 64) :
    -2 ^ 63 ≤ i ∧ i < 2 ^ 63 ∧ i.bmod (2 ^ 64) = i ∨
      i < -2 ^ 63 ∧ i.bmod (2 ^ 64) = i + 2 ^ 64 ∨
      2 ^ 63 ≤ i ∧ i.bmod (2 ^ 64) = i - 2 ^ 64 := by
  rw [Int.bmod_eq_emod]
  split <;> omega

theorem add?_eq (a b : Int64) : add? a b = ofInt? (a.toInt + b.toInt) := by
  refine checked_eq_ofInt? ?_ (Int64.toInt_add a b)
  have ha := inRange_toInt a
  have hb := inRange_toInt b
  rw [beq_iff_eq, decide_eq_decide, Int64.lt_iff_toInt_lt, Int64.lt_iff_toInt_lt,
    Int64.toInt_add, Int64.toInt_zero]
  unfold InRange at *
  rcases bmod_cases (i := a.toInt + b.toInt) (by omega) (by omega) with h | h | h <;> omega

theorem sub?_eq (a b : Int64) : sub? a b = ofInt? (a.toInt - b.toInt) := by
  refine checked_eq_ofInt? ?_ (Int64.toInt_sub a b)
  have ha := inRange_toInt a
  have hb := inRange_toInt b
  rw [beq_iff_eq, decide_eq_decide, Int64.lt_iff_toInt_lt, Int64.lt_iff_toInt_lt,
    Int64.toInt_sub, Int64.toInt_zero]
  unfold InRange at *
  rcases bmod_cases (i := a.toInt - b.toInt) (by omega) (by omega) with h | h | h <;> omega

/-! ## Products -/

theorem toInt_ne_zero {w : Int64} (h : w ≠ 0) : w.toInt ≠ 0 :=
  fun hzero => h (Int64.toInt_inj.1 hzero)

theorem natAbs_tmod_lt (i : Int) {j : Int} (h : j ≠ 0) : (i.tmod j).natAbs < j.natAbs := by
  rw [Int.natAbs_tmod]
  exact Nat.mod_lt _ (Int.natAbs_pos.2 h)

/-- A product that a division gives back is the exact one: the two differ by less than a factor, and
by a multiple of `2 ^ 64`. -/
theorem bmod_mul_eq_of_tdiv {i j : Int} (hj : j ≠ 0) (hrange : InRange j)
    (h : ((i * j).bmod (2 ^ 64)).tdiv j = i) : (i * j).bmod (2 ^ 64) = i * j := by
  have hparts := Int.tmod_add_tdiv_mul ((i * j).bmod (2 ^ 64)) j
  rw [h] at hparts
  have hdvd : ((2 ^ 64 : Nat) : Int) ∣ (i * j).bmod (2 ^ 64) - i * j := Int.dvd_bmod_sub_self
  have hsmall := natAbs_tmod_lt ((i * j).bmod (2 ^ 64)) hj
  unfold InRange at hrange
  have hzero : (i * j).bmod (2 ^ 64) - i * j = 0 :=
    Int.eq_zero_of_dvd_of_natAbs_lt_natAbs hdvd (by omega)
  omega

/-- The test made on a product of words other than zero. -/
theorem mul_test_iff {a b : Int64} (hb : b ≠ 0) :
    ¬ (a * b / b ≠ a ∨ (a = -1 ∧ b = Int64.minValue) ∨ (b = -1 ∧ a = Int64.minValue)) ↔
      InRange (a.toInt * b.toInt) := by
  constructor
  · intro htest
    simp only [not_or, not_and, ne_eq, Decidable.not_not] at htest
    obtain ⟨hback, -, hleast⟩ := htest
    by_cases hminus : b = -1
    · -- Dividing by minus one may itself overflow, but then the first factor is the least word.
      have hne : a.toInt ≠ -2 ^ 63 := fun h =>
        hleast hminus (Int64.toInt_inj.1 (h.trans Int64.toInt_minValue.symm))
      have hrange := inRange_toInt a
      have hone : b.toInt = -1 := by rw [hminus]; rfl
      rw [hone]
      unfold InRange at *
      omega
    · have hexact := bmod_mul_eq_of_tdiv (i := a.toInt) (toInt_ne_zero hb) (inRange_toInt b) (by
        rw [← Int64.toInt_mul, ← Int64.toInt_div_of_ne_right _ _ hminus, hback])
      rw [← hexact, ← Int64.toInt_mul]
      exact inRange_toInt _
  · rintro hrange (hback | ⟨rfl, rfl⟩ | ⟨rfl, rfl⟩)
    · refine hback (Int64.toInt_inj.1 ?_)
      rw [Int64.toInt_div, Int64.toInt_mul, bmod_of_inRange hrange,
        Int.mul_tdiv_cancel _ (toInt_ne_zero hb), bmod_of_inRange (inRange_toInt a)]
    · exact absurd hrange (by decide)
    · exact absurd hrange (by decide)

theorem mul?_eq (a b : Int64) : mul? a b = ofInt? (a.toInt * b.toInt) := by
  by_cases hzero : a = 0 ∨ b = 0
  · have hproduct : a.toInt * b.toInt = 0 := by
      rcases hzero with rfl | rfl <;> simp
    rw [mul?, if_pos hzero, hproduct]
    rfl
  · have hb : b ≠ 0 := fun h => hzero (.inr h)
    rw [mul?, if_neg hzero, ← ite_not]
    exact checked_eq_ofInt? (mul_test_iff hb) (Int64.toInt_mul a b)

/-! ## Remainders -/

/-- The remainder `r` of a division of `i` by `j` that has the sign of the divisor. -/
structure FloorRemainder (i j r : Int) : Prop where
  quotient : ∃ q : Int, i = q * j + r
  small : r.natAbs < j.natAbs
  sign : r = 0 ∨ (r < 0 ↔ j < 0)

theorem lt_zero_iff_toInt (w : Int64) : w < 0 ↔ w.toInt < 0 := by
  rw [Int64.lt_iff_toInt_lt, Int64.toInt_zero]

/-- The corrected remainder stays within the words: the two terms have different signs. -/
theorem toInt_mod_add {a b : Int64} (hsign : decide (a % b < 0) ≠ decide (b < 0)) :
    (a % b + b).toInt = (a % b).toInt + b.toInt := by
  have hrem := inRange_toInt (a % b)
  have hrange := inRange_toInt b
  rw [ne_eq, decide_eq_decide, lt_zero_iff_toInt, lt_zero_iff_toInt] at hsign
  rw [Int64.toInt_add]
  refine bmod_of_inRange ?_
  unfold InRange at *
  omega

theorem floorMod_spec (a : Int64) {b : Int64} (hb : b ≠ 0) :
    FloorRemainder a.toInt b.toInt (floorMod a b).toInt := by
  have hdivisor := toInt_ne_zero hb
  have hsmall := natAbs_tmod_lt a.toInt hdivisor
  have hparts := Int.tmod_add_tdiv_mul a.toInt b.toInt
  rw [← Int64.toInt_mod] at hsmall hparts
  by_cases hcorrect : a % b ≠ 0 ∧ decide (a % b < 0) ≠ decide (b < 0)
  · have hne := toInt_ne_zero hcorrect.1
    have hsign := hcorrect.2
    rw [ne_eq, decide_eq_decide, lt_zero_iff_toInt, lt_zero_iff_toInt] at hsign
    rw [floorMod, if_pos hcorrect, toInt_mod_add hcorrect.2]
    exact {
      quotient := ⟨a.toInt.tdiv b.toInt - 1, by rw [Int.sub_mul]; omega⟩
      small := by omega
      sign := by omega
    }
  · rw [floorMod, if_neg hcorrect]
    exact {
      quotient := ⟨a.toInt.tdiv b.toInt, by omega⟩
      small := hsmall
      sign := by
        rw [Decidable.not_and_iff_not_or_not, Decidable.not_not, Decidable.not_not,
          decide_eq_decide, lt_zero_iff_toInt, lt_zero_iff_toInt] at hcorrect
        exact hcorrect.imp_left fun hzero => by rw [hzero]; rfl
    }

end Word

namespace Number

open Word (InRange FloorRemainder)

/-- The number is this integer where some word has its value, and else the other number. -/
def ExactOr (i : Int) (other n : Number) : Prop :=
  (InRange i ∧ ∃ w : Int64, w.toInt = i ∧ n = .int w) ∨ (¬ InRange i ∧ n = other)

theorem arith_int_exactOr {onWords : Int64 → Int64 → Option Int64}
    (onFloats : Float → Float → Float) {a b : Int64} {i : Int}
    (h : onWords a b = Word.ofInt? i) :
    ExactOr i (.float (onFloats (Float.ofInt a.toInt) (Float.ofInt b.toInt)))
      (arith onWords onFloats (.int a) (.int b)) := by
  by_cases hrange : InRange i
  · refine .inl ⟨hrange, Int64.ofInt i, Word.toInt_ofInt_of_inRange hrange, ?_⟩
    simp only [arith, h, Word.ofInt?_of_inRange hrange]
  · refine .inr ⟨hrange, ?_⟩
    simp only [arith, h, Word.ofInt?_of_not_inRange hrange, toFloat]

/-- Only the least word has no opposite. -/
theorem inRange_neg_iff (a : Int64) : InRange (-a.toInt) ↔ a.toInt ≠ -2 ^ 63 := by
  have hrange := Word.inRange_toInt a
  unfold InRange at *
  omega

theorem neg_int_exactOr (a : Int64) :
    ExactOr (-a.toInt) (.float (Float.ofInt a.toInt * Float.ofInt (-1))) (neg (.int a)) := by
  have hone : (-1 : Int64).toInt = -1 := rfl
  have hwords : Word.mul? a (-1) = Word.ofInt? (-a.toInt) := by
    rw [Word.mul?_eq, hone, Int.mul_neg_one]
  have h := arith_int_exactOr (· * ·) hwords
  rwa [hone] at h

/-- Sums, differences, products and opposites of integers are exact wherever a word has the exact
value, and only elsewhere the same operation on the nearest binary numbers; the remainder is always
an integer, and neither of the two operations that make it leaves the range of words. -/
theorem int_arithmetic (a b : Int64) :
    ExactOr (a.toInt + b.toInt) (.float (Float.ofInt a.toInt + Float.ofInt b.toInt))
        (add (.int a) (.int b)) ∧
      ExactOr (a.toInt - b.toInt) (.float (Float.ofInt a.toInt - Float.ofInt b.toInt))
        (sub (.int a) (.int b)) ∧
      ExactOr (a.toInt * b.toInt) (.float (Float.ofInt a.toInt * Float.ofInt b.toInt))
        (mul (.int a) (.int b)) ∧
      (a.toInt ≠ -2 ^ 63 → ∃ w : Int64, w.toInt = -a.toInt ∧ neg (.int a) = .int w) ∧
      (a.toInt = -2 ^ 63 →
        neg (.int a) = .float (Float.ofInt (-2 ^ 63) * Float.ofInt (-1))) ∧
      (b ≠ 0 →
        (∃ r : Int64, mod (.int a) (.int b) = .int r ∧
          FloorRemainder a.toInt b.toInt r.toInt) ∧
        (a % b).toInt = a.toInt.tmod b.toInt ∧
        (decide (a % b < 0) ≠ decide (b < 0) →
          (a % b + b).toInt = (a % b).toInt + b.toInt)) := by
  refine ⟨arith_int_exactOr (· + ·) (Word.add?_eq a b),
    arith_int_exactOr (· - ·) (Word.sub?_eq a b),
    arith_int_exactOr (· * ·) (Word.mul?_eq a b), ?_, ?_, ?_⟩
  · intro hne
    obtain ⟨-, hexact⟩ | ⟨hout, -⟩ := neg_int_exactOr a
    · exact hexact
    · exact absurd ((inRange_neg_iff a).2 hne) hout
  · intro hleast
    obtain ⟨hin, -⟩ | ⟨-, hfloat⟩ := neg_int_exactOr a
    · exact absurd hleast ((inRange_neg_iff a).1 hin)
    · rw [hfloat, hleast]
  · intro hb
    exact ⟨⟨Word.floorMod a b, rfl, Word.floorMod_spec a hb⟩, Int64.toInt_mod a b,
      Word.toInt_mod_add⟩

/-- The least word and minus one: quotient, product, sum and opposite would leave the range. -/
theorem int_arithmetic_least :
    let least : Number := .int Int64.minValue
    (-1 : Int64) ≠ 0 ∧ add least (.int (-1)) = .float (-9223372036854775808.0) ∧
      mul least (.int (-1)) = .float 9223372036854775808.0 ∧
      neg least = .float 9223372036854775808.0 ∧
      ∃ r : Int64, mod least (.int (-1)) = .int r ∧
        FloorRemainder Int64.minValue.toInt (-1 : Int64).toInt r.toInt := by
  intro least
  have hne : (-1 : Int64) ≠ 0 := by decide
  obtain ⟨hadd, -, hmul, -, hneg, hmod⟩ := int_arithmetic Int64.minValue (-1)
  refine ⟨hne, ?_, ?_, ?_, (hmod hne).1⟩
  · obtain ⟨hin, -⟩ | ⟨-, hfloat⟩ := hadd
    · exact absurd hin (by decide)
    · exact hfloat.trans (congrArg Number.float (by decide +kernel))
  · obtain ⟨hin, -⟩ | ⟨-, hfloat⟩ := hmul
    · exact absurd hin (by decide)
    · exact hfloat.trans (congrArg Number.float (by decide +kernel))
  · exact (hneg (by decide)).trans (congrArg Number.float (by decide +kernel))

end Number
end Reckoner
