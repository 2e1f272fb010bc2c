import Mathlib.Algebra.Order.Ring.Abs
import Mathlib.Algebra.Order.Ring.Int
import Mathlib.Tactic.NormNum
import Mathlib.Tactic.Ring
import Reckoner.Proofs.Words

/-!
# Powers of integers

The power is computed by repeated squaring and given up at the first product that leaves the range
of words. Nothing is lost by that: what is given up is a product that the result still has as a
factor, beside others that do not bring it back into the range.

* `Word.not_inRange_mul`, `Word.not_inRange_mul_square_pow` — products outside the range that stay
  outside;
* `Word.powFrom?_eq` — what the loop computes, from any state in which the result so far is zero
  only together with the base;
* `Number.int_power` — what becomes of an integer to the power of an integer.
-/

namespace Reckoner

namespace Word

/-! ## The word of an integer -/

theorem exists_toInt_eq {i : Int} (h : InRange i) : ∃ w : Int64, w.toInt = i :=
  ⟨_, toInt_ofInt_of_inRange h⟩

theorem ofInt?_toInt (w : Int64) : ofInt? w.toInt = some w := by
  rw [ofInt?_of_inRange (inRange_toInt w), Int64.ofInt_toInt]

theorem ofInt?_eq_some_iff {i : Int} {w : Int64} : ofInt? i = some w ↔ w.toInt = i := by
  constructor
  · intro h
    by_cases hrange : InRange i
    · rw [ofInt?_of_inRange hrange, Option.some_inj] at h
      rw [← h, toInt_ofInt_of_inRange hrange]
    · rw [ofInt?_of_not_inRange hrange] at h
      cases h
  · rintro rfl
    exact ofInt?_toInt w

theorem ofInt?_eq_none_iff {i : Int} : ofInt? i = none ↔ ¬ InRange i := by
  constructor
  · intro h hrange
    rw [ofInt?_of_inRange hrange] at h
    cases h
  · exact ofInt?_of_not_inRange

/-! ## Products outside the range -/

theorem inRange_mul_zero_pow (w : Int64) (n : Nat) : InRange (w.toInt * 0 ^ n) := by
  cases n with
  | zero =>
      rw [pow_zero, mul_one]
      exact inRange_toInt w
  | succ n =>
      rw [zero_pow n.succ_ne_zero, mul_zero]
      decide

/-- The sign of the factor matters: `2 ^ 63` is no word, its opposite is the least one. -/
theorem not_inRange_mul {i k : Int} (hi : ¬ InRange i) (hk : 0 < k) : ¬ InRange (i * k) := by
  unfold InRange at *
  rcases Int.lt_or_le i 0 with hneg | hpos
  · have hle : i * k ≤ i * 1 := Int.mul_le_mul_of_nonpos_left (by omega) (by omega)
    omega
  · have hle : i * 1 ≤ i * k := Int.mul_le_mul_of_nonneg_left (by omega) hpos
    omega

theorem not_inRange_of_natAbs {i : Int} (h : 2 ^ 63 < i.natAbs) : ¬ InRange i := by
  unfold InRange
  omega

/-- No square is `2 ^ 63`, the one integer outside the range whose opposite is inside. -/
theorem natAbs_square_of_not_inRange {i : Int} (h : ¬ InRange (i * i)) :
    2 ^ 63 < (i * i).natAbs := by
  have hne : i.natAbs * i.natAbs ≠ 2 ^ 63 := by
    rcases Nat.lt_or_ge i.natAbs 3037000500 with hlt | hge
    · have hle := Nat.mul_le_mul (Nat.le_of_lt_succ hlt) (Nat.le_of_lt_succ hlt)
      omega
    · have hle := Nat.mul_le_mul hge hge
      omega
  have hsquare := mul_self_nonneg i
  rw [← Int.natAbs_mul] at hne
  unfold InRange at h
  omega

theorem not_inRange_mul_square_pow {i k : Int} {n : Nat} (hi : ¬ InRange (i * i)) (hk : k ≠ 0)
    (hn : n ≠ 0) : ¬ InRange (k * (i * i) ^ n) := by
  have hsquare := natAbs_square_of_not_inRange hi
  refine not_inRange_of_natAbs ?_
  calc 2 ^ 63 < (i * i).natAbs := hsquare
    _ ≤ (i * i).natAbs ^ n := Nat.le_self_pow hn _
    _ ≤ k.natAbs * (i * i).natAbs ^ n := Nat.le_mul_of_pos_left _ (Int.natAbs_pos.2 hk)
    _ = (k * (i * i) ^ n).natAbs := by rw [Int.natAbs_mul k, Int.natAbs_pow]

/-! ## Repeated squaring -/

theorem powFrom?_zero (result base : Int64) : powFrom? result base 0 = some result := by
  rw [powFrom?, if_pos rfl]

/-- One round of the loop. -/
theorem powFrom?_of_ne_zero (result base : Int64) {n : Nat} (hn : n ≠ 0) :
    powFrom? result base n =
      (if n % 2 = 1 then mul? result base else some result).bind fun result =>
        if n / 2 = 0 then some result
        else (mul? base base).bind fun base => powFrom? result base (n / 2) := by
  rw [powFrom?, if_neg hn]
  by_cases hodd : n % 2 = 1
  · simp only [if_pos hodd]
    rfl
  · simp only [if_neg hodd]
    rfl

theorem mul?_if_odd (result base : Int64) (n : Nat) :
    (if n % 2 = 1 then mul? result base else some result) =
      ofInt? (result.toInt * base.toInt ^ (n % 2)) := by
  rcases Nat.mod_two_eq_zero_or_one n with heven | hodd
  · rw [heven, pow_zero, mul_one, ofInt?_toInt]
    rfl
  · rw [hodd, pow_one, mul?_eq]
    rfl

theorem pow_eq_mul_square_pow (i : Int) (n : Nat) : i ^ n = i ^ (n % 2) * (i * i) ^ (n / 2) := by
  rw [← pow_two, ← pow_mul, ← pow_add, Nat.mod_add_div]

/-- The loop finds the exact value where some word has it, and gives up elsewhere. A result of zero
would hide the overflow of a square, but it only comes about when the base is zero. -/
theorem powFrom?_eq (result base : Int64) (n : Nat) (h : base.toInt = 0 ∨ result.toInt ≠ 0) :
    powFrom? result base n = ofInt? (result.toInt * base.toInt ^ n) := by
  induction n using Nat.strongRecOn generalizing result base with
  | ind n ih =>
    by_cases hn : n = 0
    · rw [hn, powFrom?_zero, pow_zero, mul_one, ofInt?_toInt]
    rw [powFrom?_of_ne_zero result base hn, mul?_if_odd, pow_eq_mul_square_pow base.toInt n,
      ← mul_assoc]
    by_cases hodd : InRange (result.toInt * base.toInt ^ (n % 2))
    · obtain ⟨next, hnext⟩ := exists_toInt_eq hodd
      rw [← hnext, ofInt?_toInt, Option.bind_some]
      by_cases hlast : n / 2 = 0
      · rw [if_pos hlast, hlast, pow_zero, mul_one, ofInt?_toInt]
      have hinvariant : base.toInt = 0 ∨ next.toInt ≠ 0 := by
        rw [hnext]
        by_cases hbase : base.toInt = 0
        · exact .inl hbase
        · exact .inr (mul_ne_zero (h.resolve_left hbase) (pow_ne_zero _ hbase))
      rw [if_neg hlast, mul?_eq]
      by_cases hsquare : InRange (base.toInt * base.toInt)
      · obtain ⟨square, hsq⟩ := exists_toInt_eq hsquare
        rw [← hsq, ofInt?_toInt, Option.bind_some]
        refine ih (n / 2) (by omega) next square (hinvariant.imp_left fun hbase => ?_)
        rw [hsq, hbase, mul_zero]
      · -- The square is needed: at least one more bit of the exponent is set.
        have hbase : base.toInt ≠ 0 := fun hbase => hsquare (by rw [hbase]; decide)
        have hout := not_inRange_mul_square_pow hsquare (hinvariant.resolve_left hbase) hlast
        rw [ofInt?_of_not_inRange hsquare, Option.bind_none, ofInt?_of_not_inRange hout]
    · -- What is still to be multiplied with is a power of a square, and positive.
      have hbase : base.toInt ≠ 0 := fun hbase => hodd (by
        rw [hbase]
        exact inRange_mul_zero_pow result _)
      have hsquares : 0 < (base.toInt * base.toInt) ^ (n / 2) :=
        pow_pos (mul_self_pos.2 hbase) _
      rw [ofInt?_of_not_inRange hodd, Option.bind_none,
        ofInt?_of_not_inRange (not_inRange_mul hodd hsquares)]

/-- The power of a word is found exactly where some word has its value. -/
theorem pow?_eq (base : Int64) (n : Nat) : pow? base n = ofInt? (base.toInt ^ n) := by
  rw [pow?, powFrom?_eq 1 base n (.inr (by decide)), Int64.toInt_one, one_mul]

end Word

namespace Number

open Word (InRange)

/-- For an exponent that is not negative the loop gives the exact power wherever a word has its
value, and gives up elsewhere; so the power of two integers is the exact integer wherever it is one
that fits, and a binary number only elsewhere. -/
theorem int_power (a b : Int64) (hb : 0 ≤ b) :
    (∀ w : Int64, Word.pow? a b.toInt.toNat = some w ↔ w.toInt = a.toInt ^ b.toInt.toNat) ∧
      (Word.pow? a b.toInt.toNat = none ↔ ¬ InRange (a.toInt ^ b.toInt.toNat)) ∧
      ExactOr (a.toInt ^ b.toInt.toNat)
        (.float (Power.power (toFloat (.int a)) (toFloat (.int b)))) (pow (.int a) (.int b)) := by
  refine ⟨fun w => ?_, ?_, arith_int_exactOr Power.power ?_⟩
  · rw [Word.pow?_eq, Word.ofInt?_eq_some_iff]
  · rw [Word.pow?_eq, Word.ofInt?_eq_none_iff]
  · rw [if_pos hb, Word.pow?_eq]

/-- The power of 63 is the least word for minus two and no word for two; zero to the power of zero
is one. -/
theorem int_power_least :
    (0 : Int64) ≤ 63 ∧ Word.pow? (-2) 63 = some Int64.minValue ∧ Word.pow? 2 63 = none ∧
      pow (.int 2) (.int 63) = .float (Power.power (toFloat (.int 2)) (toFloat (.int 63))) ∧
      Word.pow? 0 0 = some 1 :=
  have hb : (0 : Int64) ≤ 63 := by decide
  have hout : ¬ InRange ((2 : Int64).toInt ^ (63 : Int64).toInt.toNat) := by decide
  ⟨hb, ((int_power (-2) 63 hb).1 _).2 (by decide), (int_power 2 63 hb).2.1.2 hout,
    ((int_power 2 63 hb).2.2.resolve_left fun h => hout h.1).2,
    ((int_power 0 0 (by decide)).1 1).2 (by decide)⟩

end Number
end Reckoner
