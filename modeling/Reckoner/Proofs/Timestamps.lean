import Mathlib.Algebra.Group.Nat.Defs
import Reckoner.Proofs.Numeral
import Reckoner.Timestamp

/-!
# Timestamps read back

The written form of a timestamp is read as the same timestamp, unless its clock is a day or more off
universal time.

* `fixed?_padded` — numbers of a fixed width;
* `takeFraction_fractionText` — fractions of a second, without the zeros at their end;
* `offset?_offsetText` — distances from universal time;
* `Timestamp.read?_text` — whole timestamps.
-/

namespace Reckoner

open Text Decimal

/-! ## Numbers of a fixed width -/

theorem ofDigits_append_singleton (cs : List Char) (c : Char) :
    ofDigits (cs ++ [c]) = ofDigits cs * 10 + digitValue c := by
  simp [ofDigits]

theorem ofDigits_digits (n : Nat) : ofDigits (digits n) = n := by
  induction n using Nat.strongRecOn with
  | ind n ih =>
      rw [digits]
      split
      · next hn => simp [ofDigits, digitValue_digitChar n hn]
      · next hn =>
        rw [ofDigits_append_singleton, ih (n / 10) (by omega),
          digitValue_digitChar (n % 10) (by omega)]
        omega

theorem ofDigits_replicate_append (k : Nat) (cs : List Char) :
    ofDigits (List.replicate k '0' ++ cs) = ofDigits cs := by
  induction k with
  | zero => rfl
  | succ k ih =>
      have hzero : digitValue '0' = 0 := rfl
      simpa [List.replicate_succ, ofDigits, hzero] using ih

theorem length_digits_le {width n : Nat} (hwidth : 0 < width) (h : n < 10 ^ width) :
    (digits n).length ≤ width := by
  induction width generalizing n with
  | zero => exact absurd hwidth (Nat.lt_irrefl 0)
  | succ width ih =>
      rw [digits]
      split
      · simp
      · next hn =>
        cases width with
        | zero => omega
        | succ width =>
            have hless : n / 10 < 10 ^ (width + 1) := by
              rw [Nat.pow_succ] at h
              exact Nat.div_lt_of_lt_mul (by omega)
            have hbefore := ih (Nat.succ_pos _) hless
            simp only [List.length_append, List.length_singleton]
            omega

namespace Timestamp

theorem length_padded (width : Nat) {n : Nat} (hwidth : 0 < width) (h : n < 10 ^ width) :
    (padded width n).length = width := by
  have hle := length_digits_le hwidth h
  simp only [padded, List.length_append, List.length_replicate]
  omega

theorem isDigit_of_mem_padded (width n : Nat) : ∀ c ∈ padded width n, isDigit c := by
  intro c hc
  rcases List.mem_append.1 hc with hzero | hdigit
  · rw [(List.mem_replicate.1 hzero).2]
    rfl
  · exact isDigit_of_mem_digits n c hdigit

theorem ofDigits_padded (width n : Nat) : ofDigits (padded width n) = n := by
  rw [padded, ofDigits_replicate_append, ofDigits_digits]

/-- A number written to a width is read by this width. -/
theorem fixed?_padded (width : Nat) {n : Nat} (hwidth : 0 < width) (h : n < 10 ^ width)
    (rest : List Char) : fixed? width (padded width n ++ rest) = some (n, rest) := by
  have hlength := length_padded width hwidth h
  have htake : (padded width n ++ rest).take width = padded width n := List.take_left' hlength
  have hdrop : (padded width n ++ rest).drop width = rest := List.drop_left' hlength
  have hdigits : (padded width n).all isDigit := List.all_eq_true.2 (isDigit_of_mem_padded width n)
  rw [fixed?, htake, hdrop, ofDigits_padded]
  exact if_pos ⟨hlength, hdigits⟩

/-! ## Fractions and offsets -/

/-- A text without the zeros at its end. -/
def trimmed (cs : List Char) : List Char :=
  (cs.reverse.dropWhile (· == '0')).reverse

theorem exists_trimmed_append (cs : List Char) :
    ∃ k, cs = trimmed cs ++ List.replicate k '0' := by
  refine ⟨(cs.reverse.takeWhile (· == '0')).length, ?_⟩
  have hzeros : cs.reverse.takeWhile (· == '0') =
      List.replicate (cs.reverse.takeWhile (· == '0')).length '0' := by
    refine List.eq_replicate_of_mem ?_
    intro c hc
    simpa using List.mem_takeWhile_imp hc
  calc cs = cs.reverse.reverse := (List.reverse_reverse cs).symm
    _ = (cs.reverse.takeWhile (· == '0') ++ cs.reverse.dropWhile (· == '0')).reverse := by
      rw [List.takeWhile_append_dropWhile]
    _ = trimmed cs ++ (cs.reverse.takeWhile (· == '0')).reverse := by
      rw [List.reverse_append, trimmed]
    _ = _ := by rw [hzeros, List.reverse_replicate, List.length_replicate]

/-- What was cut off is put back when the digits are counted to a width. -/
theorem take_trimmed_append {cs : List Char} {width : Nat} (h : cs.length = width) :
    (trimmed cs ++ List.replicate width '0').take width = cs := by
  rcases exists_trimmed_append cs with ⟨k, hk⟩
  have hlength := congrArg List.length hk
  simp only [List.length_append, List.length_replicate] at hlength
  rw [List.take_append, List.take_of_length_le (by omega), List.take_replicate,
    show min (width - (trimmed cs).length) width = k by omega]
  exact hk.symm

theorem takeFraction_fractionText {n : Nat} (h : n < 1000000000) {c : Char} {rest : List Char}
    (hc : isDigit c = false) (hpoint : c ≠ '.') (hcomma : c ≠ ',') :
    takeFraction (fractionText n ++ c :: rest) = (n, c :: rest) := by
  unfold fractionText
  split
  · next hn => simp [takeFraction, hpoint, hcomma, hn]
  · next hn =>
    change takeFraction ('.' :: (trimmed (padded 9 n) ++ c :: rest)) = _
    rcases exists_trimmed_append (padded 9 n) with ⟨k, hk⟩
    have hdigits : ∀ d ∈ trimmed (padded 9 n), isDigit d := by
      intro d hd
      refine isDigit_of_mem_padded 9 n d ?_
      rw [hk]
      exact List.mem_append_left _ hd
    have hne : trimmed (padded 9 n) ≠ [] := by
      intro hnil
      -- Nothing but zeros would be the number zero.
      rw [hnil, List.nil_append] at hk
      have hzero := ofDigits_replicate_append k []
      rw [List.append_nil, ← hk, ofDigits_padded] at hzero
      exact hn hzero
    have hend : HeadFails isDigit (c :: rest) := headFails_cons.2 hc
    have htake := takeWhile_append_of_headFails hdigits hend
    have hdrop := dropWhile_append_of_headFails hdigits hend
    have hpadded := take_trimmed_append (length_padded 9 (by decide) h)
    simp only [takeFraction, htake, hdrop, hpadded, ofDigits_padded]
    simp [hne]

theorem offset?_signed {sign : Char} {hours minutes : Nat} (hsign : sign ≠ 'Z')
    (hhours : hours < 24) (hminutes : minutes < 60) :
    offset? (sign :: padded 2 hours ++ ':' :: padded 2 minutes) =
      if sign = '+' then some ((hours * 60 + minutes : Nat) : Int)
      else if sign = '-' then some (-((hours * 60 + minutes : Nat) : Int))
      else none := by
  have hfirst := fixed?_padded 2 (by decide) (show hours < 10 ^ 2 by omega)
    (':' :: padded 2 minutes)
  have hsecond := fixed?_padded 2 (by decide) (show minutes < 10 ^ 2 by omega) []
  rw [List.append_nil] at hsecond
  have hrange : ¬ (24 < hours ∨ 60 < minutes) := by omega
  rw [List.cons_append, offset?.eq_def]
  split
  · next heq => exact absurd (List.cons.inj heq).1 hsign
  · next heq =>
    obtain ⟨rfl, rfl⟩ := List.cons.inj heq
    simp [hfirst, hsecond, mark?, hrange]
  · next heq => cases heq

theorem offset?_offsetText {offset : Int} (h : offset.natAbs < 24 * 60) :
    offset? (offsetText offset) = some offset := by
  unfold offsetText
  split
  · next hzero => rw [hzero]; rfl
  · next hne =>
    have hsum : offset.natAbs / 60 * 60 + offset.natAbs % 60 = offset.natAbs := by omega
    have hhours : offset.natAbs / 60 < 24 := by omega
    have hminutes : offset.natAbs % 60 < 60 := by omega
    split
    · next hneg =>
      have hvalue : -(offset.natAbs : Int) = offset := by omega
      rw [offset?_signed (by decide) hhours hminutes, hsum, hvalue]
      rfl
    · next hpos =>
      have hvalue : (offset.natAbs : Int) = offset := by omega
      rw [offset?_signed (by decide) hhours hminutes, hsum, hvalue]
      rfl

/-- The distance from universal time begins with a sign or a letter. -/
theorem offsetText_eq_cons (offset : Int) :
    ∃ c rest, offsetText offset = c :: rest ∧ isDigit c = false ∧ c ≠ '.' ∧ c ≠ ',' := by
  unfold offsetText
  split
  · exact ⟨_, _, rfl, by decide⟩
  · split
    · exact ⟨_, _, rfl, by decide⟩
    · exact ⟨_, _, rfl, by decide⟩

/-- The written form of a timestamp is read as this timestamp. -/
theorem read?_text {t : Timestamp} (h : t.offset.natAbs < 24 * 60) : read? t.text = some t := by
  obtain ⟨hyear, hmonth, hday, hhour, hminute, hsecond, hnano, -⟩ := t.valid
  have hdays : daysIn t.year t.month ≤ 31 := by
    unfold daysIn
    split
    · split <;> decide
    · split <;> decide
  rcases offsetText_eq_cons t.offset with ⟨c, rest, hoffset, hc, hpoint, hcomma⟩
  have hread := offset?_offsetText h
  have hfraction : takeFraction (fractionText t.nanosecond ++ offsetText t.offset) =
      (t.nanosecond, offsetText t.offset) := by
    rw [hoffset]
    exact takeFraction_fractionText hnano hc hpoint hcomma
  have htwo {n : Nat} (hn : n < 100) (rest : List Char) :
      fixed? 2 (padded 2 n ++ rest) = some (n, rest) :=
    fixed?_padded 2 (by decide) hn rest
  have hfour (rest : List Char) : fixed? 4 (padded 4 t.year ++ rest) = some (t.year, rest) :=
    fixed?_padded 4 (by decide) hyear rest
  unfold read? text
  rw [String.toList_ofList]
  simp only [List.append_assoc, List.cons_append, hfour, htwo (show t.month < 100 by omega),
    htwo (show t.day < 100 by omega), htwo (show t.hour < 100 by omega),
    htwo (show t.minute < 100 by omega), htwo (show t.second < 100 by omega), hfraction, hread,
    mark?, hour?, if_true, Option.some_or, Option.bind_eq_bind, Option.bind_some]
  exact dif_pos t.valid

end Timestamp
end Reckoner
