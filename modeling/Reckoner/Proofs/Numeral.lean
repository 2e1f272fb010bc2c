import Reckoner.Proofs.Grammar
import Reckoner.Proofs.Lexeme

/-!
# Literals of numbers

An integer that stands in a source is not negative, its printed form is a literal, and that literal
stands for the same integer again. A binary number prints as a literal only when its printed form is
made of digits and a point.

* `readMagnitude_digits`, `readInt_natText` — digits are read back;
* `Number.ReadsBack` — the printed form of a binary number is a literal of it;
* `Number.Prints` — the printed form is a literal of the number.
-/

namespace Reckoner

open Text Decimal

/-! ## Digits -/

theorem digitValue_digitChar : ∀ d, d < 10 → digitValue (digitChar d) = d := by
  decide

theorem isDigit_digitChar : ∀ d, d < 10 → isDigit (digitChar d) := by
  decide

theorem digits_ne_nil (n : Nat) : digits n ≠ [] := by
  rw [digits]
  split <;> simp

theorem isDigit_of_mem_digits (n : Nat) : ∀ c ∈ digits n, isDigit c := by
  induction n using Nat.strongRecOn with
  | ind n ih =>
      rw [digits]
      split
      · next hn =>
        intro c hc
        rw [List.mem_singleton.1 hc]
        exact isDigit_digitChar n hn
      · intro c hc
        rcases List.mem_append.1 hc with hc | hc
        · exact ih (n / 10) (by omega) c hc
        · rw [List.mem_singleton.1 hc]
          exact isDigit_digitChar (n % 10) (by omega)

theorem readMagnitude_append {ds es : List Char} {n m : Nat} (h : readMagnitude ds n = .ok m) :
    readMagnitude (ds ++ es) n = readMagnitude es m := by
  induction ds generalizing n with
  | nil =>
      rw [readMagnitude] at h
      rw [Except.ok.inj h, List.nil_append]
  | cons c ds ih =>
      rw [readMagnitude] at h
      rw [List.cons_append, readMagnitude]
      split at h
      · cases h
      · split at h
        · cases h
        · next hdigit hrange =>
          rw [if_neg hdigit, if_neg hrange]
          exact ih h

theorem readMagnitude_singleton {c : Char} {n : Nat} (hc : isDigit c)
    (h : n * 10 + digitValue c < 0x10000000000000000) :
    readMagnitude [c] n = .ok (n * 10 + digitValue c) := by
  rw [readMagnitude, if_neg (by simp [hc]), if_neg (by omega), readMagnitude]

theorem readMagnitude_digits {n : Nat} (h : n < 0x10000000000000000) :
    readMagnitude (digits n) 0 = .ok n := by
  -- By the last digit: the ones before it are read first and are again the digits of a number.
  induction n using Nat.strongRecOn with
  | ind n ih =>
      rw [digits]
      split
      · next hn =>
        have hvalue := digitValue_digitChar n hn
        rw [readMagnitude_singleton (isDigit_digitChar n hn) (by omega), hvalue]
        simp
      · next hn =>
        have hvalue := digitValue_digitChar (n % 10) (by omega)
        rw [readMagnitude_append (ih (n / 10) (by omega) (by omega)),
          readMagnitude_singleton (isDigit_digitChar (n % 10) (by omega)) (by omega), hvalue]
        congr 1
        omega

theorem readSign_of_isDigit {c : Char} {cs : List Char} (hc : isDigit c) :
    readSign (c :: cs) = (false, c :: cs) := by
  unfold readSign
  split
  · next heq =>
    rw [(List.cons.inj heq).1] at hc
    exact absurd hc (by decide)
  · next heq =>
    rw [(List.cons.inj heq).1] at hc
    exact absurd hc (by decide)
  · rfl

/-- Digits without a sign are read as a number that is not negative. -/
theorem readIntChars_eq_ok_iff {ds : List Char} {i : Int64} (hne : ds ≠ [])
    (hds : ∀ d ∈ ds, isDigit d) :
    readIntChars ds = .ok i ↔ ∃ n : Nat, readMagnitude ds 0 = .ok n ∧ Word.ofInt? n = some i := by
  cases ds with
  | nil => exact absurd rfl hne
  | cons c cs =>
      have hsign : readSign (c :: cs) = (false, c :: cs) := readSign_of_isDigit (hds c (by simp))
      cases hmagnitude : readMagnitude (c :: cs) 0 with
      | error misfit => simp [readIntChars, hsign, hmagnitude]
      | ok n =>
          cases hword : Word.ofInt? n with
          | none => simp [readIntChars, hsign, hmagnitude, hword]
          | some j => simp [readIntChars, hsign, hmagnitude, hword]

theorem ofInt?_eq_some {n : Int} {i : Int64} (h : Word.ofInt? n = some i) : i.toInt = n := by
  unfold Word.ofInt? at h
  split at h
  · next hrange =>
    rw [← Option.some.inj h]
    exact Int64.toInt_ofInt_of_le hrange.1 (by
      have : Int64.maxValue.toInt = 2 ^ 63 - 1 := by decide
      omega)
  · cases h

theorem readInt_natText {n : Nat} (h : (n : Int) ≤ Int64.maxValue.toInt) :
    readInt (natText n) = .ok (Int64.ofInt n) := by
  have hmax : Int64.maxValue.toInt = 2 ^ 63 - 1 := by decide
  have hmin : Int64.minValue.toInt = -2 ^ 63 := by decide
  have hword : Word.ofInt? n = some (Int64.ofInt n) := by
    rw [Word.ofInt?, if_pos (by omega)]
  have hchars : readIntChars (digits n) = .ok (Int64.ofInt n) :=
    (readIntChars_eq_ok_iff (digits_ne_nil n) (isDigit_of_mem_digits n)).2
      ⟨n, readMagnitude_digits (by omega), hword⟩
  rw [readInt, natText, String.toList_ofList, hchars]

/-! ## Numbers that print as literals -/

/-- The kind of a literal that the number is printed as. -/
def Number.literalKind : Number → Kind
  | .int _ => .int
  | .float _ => .float

/-- The printed form of the number is a literal of it. -/
def Number.Prints (n : Number) : Prop :=
  Lexeme .number n.text.toList n.literalKind n.text ∧
    ∀ p, Token.Denotes ⟨n.literalKind, n.text, p⟩ n

/-- An integer, or a binary number that is printed as digits with a point among them and is read
back from there. -/
def Number.ReadsBack : Number → Prop
  | .int _ => True
  | .float x =>
    (∃ ds fs, ds ≠ [] ∧ fs ≠ [] ∧ (∀ d ∈ ds, isDigit d) ∧ (∀ d ∈ fs, isDigit d) ∧
      (floatText x).toList = ds ++ '.' :: fs) ∧
    readFloat (floatText x) = .ok x

theorem Number.prints_float {x : Float} (h : (Number.float x).ReadsBack) :
    (Number.float x).Prints := by
  rcases h with ⟨⟨ds, fs, hds, _, hdigits, hfraction, htext⟩, hread⟩
  refine ⟨?_, fun p => .float rfl hread⟩
  have hlex := Lexeme.fraction hds hdigits hfraction
  rw [← htext, String.ofList_toList] at hlex
  exact hlex

theorem Number.prints_int {i : Int64} (h : 0 ≤ i.toInt) : (Number.int i).Prints := by
  -- Without a sign the text is the digits of the number itself.
  have hcast : ((i.toInt.natAbs : Nat) : Int) = i.toInt := by omega
  have hmax : i.toInt ≤ Int64.maxValue.toInt := Int64.toInt_le i
  have htext : (Number.int i).text = natText i.toInt.natAbs := by
    rw [Number.text, intText, if_neg (by omega)]
  refine ⟨?_, fun p => .int rfl ?_⟩
  · rw [htext, natText, String.toList_ofList]
    exact .integer (digits_ne_nil _) (isDigit_of_mem_digits _)
  · have hread := readInt_natText (n := i.toInt.natAbs) (by omega)
    rw [hcast, Int64.ofInt_toInt] at hread
    rw [Token.int, htext]
    exact hread

theorem Lexeme.int_digits {cls : LexClass} {text : List Char} {kind : Kind} {literal : String}
    (hlex : Lexeme cls text kind literal) (hkind : kind = .int) :
    literal.toList ≠ [] ∧ ∀ d ∈ literal.toList, isDigit d := by
  -- Words and operators have other kinds, so only the integers are left.
  cases hlex with
  | integer hne hds =>
      rw [String.toList_ofList]
      exact ⟨hne, hds⟩
  | fraction _ _ _ => cases hkind
  | word _ _ _ =>
      have hmem := tableKind_mem literal
      simp [hkind] at hmem
  | operator hmem =>
      subst hkind
      simp [operatorKinds] at hmem
  | string _ => cases hkind

/-- The integer of a literal in a source is not negative: a literal has no sign. -/
theorem Lexeme.toInt_nonneg {cls : LexClass} {text : List Char} {t : Token} {i : Int64}
    (hlex : Lexeme cls text t.kind t.literal) (h : t.Denotes (.int i)) : 0 ≤ i.toInt := by
  cases h with
  | int hkind hread =>
      have hchars : readIntChars t.literal.toList = .ok i := by
        rw [Token.int, readInt] at hread
        split at hread
        · next hchars =>
          rw [hchars, Except.ok.inj hread]
        · cases hread
      rcases hlex.int_digits hkind with ⟨hne, hds⟩
      rcases (readIntChars_eq_ok_iff hne hds).1 hchars with ⟨n, -, hword⟩
      rw [ofInt?_eq_some hword]
      exact Int.natCast_nonneg n

end Reckoner
