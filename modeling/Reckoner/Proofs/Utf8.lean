import Mathlib.Data.List.Basic
import Reckoner.Text.Utf8

/-!
# Bytes and characters

Bytes are read as characters from the left, and bytes that begin no character are replaced one by
one. An ASCII byte is never a part of anything else: reading falls into the bytes before it, the
byte itself and the bytes behind it, and an ASCII character comes from its own byte only.

* `decodeBytes_append_cons` — reading around an ASCII byte;
* `exists_bytes_of_decodeBytes` — the bytes around an ASCII character;
* `decodeBytes_encodeText` — a text is read from its bytes.
-/

namespace Reckoner.Text

/-- The byte is a character by itself. -/
def IsAscii (b : UInt8) : Prop :=
  b < 0x80

instance (b : UInt8) : Decidable (IsAscii b) :=
  inferInstanceAs (Decidable (b < 0x80))

/-- The character of an ASCII byte. -/
def asciiChar (b : UInt8) : Char :=
  Char.ofNat b.toNat

theorem toNat_asciiChar {b : UInt8} (h : IsAscii b) : (asciiChar b).toNat = b.toNat := by
  have hlt : b.toNat < 128 := UInt8.lt_iff_toNat_lt.1 h
  have hvalid : b.toNat.isValidChar := .inl (by omega)
  rw [asciiChar, Char.ofNat, dif_pos hvalid]
  rfl

theorem asciiChar_inj {b c : UInt8} (hb : IsAscii b) (hc : IsAscii c) :
    asciiChar b = asciiChar c ↔ b = c := by
  refine ⟨fun h => UInt8.toNat_inj.1 ?_, fun h => congrArg asciiChar h⟩
  rw [← toNat_asciiChar hb, ← toNat_asciiChar hc, h]

/-! ## Single characters -/

theorem continuation?_of_isAscii {b : UInt8} (h : IsAscii b) : continuation? b = none := by
  have hlt : ¬ 0x80 ≤ b := by simpa [IsAscii] using h
  simp [continuation?, hlt]

theorem scalar?_eq_some {least n : Nat} {c : Char} (h : scalar? least n = some c) :
    least ≤ c.toNat := by
  unfold scalar? at h
  split at h
  · next hn =>
    simp only [Bool.and_eq_true, decide_eq_true_eq] at hn
    cases h
    rw [Char.ofNat, dif_pos hn.2]
    exact hn.1
  · cases h

/-- A character at the head is an ASCII byte, or takes several bytes and is beyond ASCII. -/
theorem charAt?_eq_some {b : UInt8} {rest : List UInt8} {c : Char} {n : Nat}
    (h : charAt? (b :: rest) = some (c, n)) :
    (IsAscii b ∧ c = asciiChar b ∧ n = 1) ∨ (128 ≤ c.toNat ∧ 1 < n ∧ n ≤ rest.length + 1) := by
  unfold charAt? at h
  dsimp only at h
  by_cases hb : b < 0x80
  · rw [if_pos hb] at h
    cases h
    exact .inl ⟨hb, rfl, rfl⟩
  rw [if_neg hb] at h
  refine .inr ?_
  -- The three longer forms, by the number of bytes behind the first.
  split at h
  · cases h
  split at h
  · split at h
    · simp only [Option.bind_eq_bind, Option.bind_eq_some_iff, Option.pure_def,
        Option.some.injEq, Prod.mk.injEq] at h
      obtain ⟨_, -, d, hd, rfl, rfl⟩ := h
      have := scalar?_eq_some hd
      simp only [List.length_cons]
      omega
    · cases h
  split at h
  · split at h
    · simp only [Option.bind_eq_bind, Option.bind_eq_some_iff, Option.pure_def,
        Option.some.injEq, Prod.mk.injEq] at h
      obtain ⟨_, -, _, -, d, hd, rfl, rfl⟩ := h
      have := scalar?_eq_some hd
      simp only [List.length_cons]
      omega
    · cases h
  split at h
  · split at h
    · simp only [Option.bind_eq_bind, Option.bind_eq_some_iff, Option.pure_def,
        Option.some.injEq, Prod.mk.injEq] at h
      obtain ⟨_, -, _, -, _, -, d, hd, rfl, rfl⟩ := h
      have := scalar?_eq_some hd
      simp only [List.length_cons]
      omega
    · cases h
  · cases h

theorem charAt?_of_isAscii {b : UInt8} (h : IsAscii b) (rest : List UInt8) :
    charAt? (b :: rest) = some (asciiChar b, 1) := by
  unfold charAt?
  exact if_pos h

/-- Bytes from an ASCII byte on do not help to complete a character. -/
theorem charAt?_append_cons (first : UInt8) (xs ys : List UInt8) {b : UInt8} (hb : IsAscii b) :
    charAt? (first :: (xs ++ b :: ys)) = charAt? (first :: xs) := by
  have hnone := continuation?_of_isAscii hb
  unfold charAt?
  match xs with
  | [] => rcases ys with _ | ⟨y, _ | ⟨z, zs⟩⟩ <;> simp [hnone]
  | [x] => rcases ys with _ | ⟨y, ys⟩ <;> simp [hnone]
  | [x, y] => simp [hnone]
  | x :: y :: z :: zs => simp

/-! ## Reading around an ASCII byte -/

theorem decodeFrom_eq_append (skip : Nat) (bytes : List UInt8) (read : List Char) :
    decodeFrom skip bytes read = read.reverse ++ decodeFrom skip bytes [] := by
  induction bytes generalizing skip read with
  | nil => simp [decodeFrom]
  | cons b rest ih =>
      cases skip with
      | succ skip => rw [decodeFrom, decodeFrom, ih]
      | zero =>
          rw [decodeFrom, decodeFrom]
          cases charAt? (b :: rest) with
          | none =>
              dsimp only
              rw [ih 0 (replacement :: read), ih 0 [replacement]]
              simp
          | some found =>
              dsimp only
              rw [ih _ (found.1 :: read), ih _ [found.1]]
              simp

theorem decodeFrom_of_some {b : UInt8} {rest : List UInt8} {c : Char} {n : Nat}
    (h : charAt? (b :: rest) = some (c, n)) :
    decodeFrom 0 (b :: rest) [] = c :: decodeFrom (n - 1) rest [] := by
  rw [decodeFrom, h]
  exact decodeFrom_eq_append (n - 1) rest [c]

theorem decodeFrom_of_none {b : UInt8} {rest : List UInt8} (h : charAt? (b :: rest) = none) :
    decodeFrom 0 (b :: rest) [] = replacement :: decodeFrom 0 rest [] := by
  rw [decodeFrom, h]
  exact decodeFrom_eq_append 0 rest [replacement]

theorem decodeFrom_append_cons {skip : Nat} {xs : List UInt8} (hskip : skip ≤ xs.length)
    {b : UInt8} (hb : IsAscii b) (ys : List UInt8) :
    decodeFrom skip (xs ++ b :: ys) [] =
      decodeFrom skip xs [] ++ asciiChar b :: decodeBytes ys := by
  -- A character that began before the byte ends before it, so the byte is never skipped.
  induction xs generalizing skip with
  | nil =>
      obtain rfl : skip = 0 := Nat.le_zero.1 hskip
      exact decodeFrom_of_some (charAt?_of_isAscii hb ys)
  | cons x xs ih =>
      cases skip with
      | succ skip => exact ih (Nat.le_of_succ_le_succ hskip)
      | zero =>
          have hsame := charAt?_append_cons x xs ys hb
          rw [List.cons_append]
          cases hat : charAt? (x :: xs) with
          | none =>
              rw [decodeFrom_of_none (hsame.trans hat), decodeFrom_of_none hat,
                ih (Nat.zero_le _), List.cons_append]
          | some found =>
              have hlength : found.2 - 1 ≤ xs.length := by
                rcases charAt?_eq_some hat with ⟨-, -, hone⟩ | ⟨-, -, hmore⟩ <;> omega
              rw [decodeFrom_of_some (hsame.trans hat), decodeFrom_of_some hat, ih hlength,
                List.cons_append]

/-- Reading falls into what is before an ASCII byte, the byte, and what is behind it. -/
theorem decodeBytes_append_cons (xs : List UInt8) {b : UInt8} (hb : IsAscii b)
    (ys : List UInt8) :
    decodeBytes (xs ++ b :: ys) = decodeBytes xs ++ asciiChar b :: decodeBytes ys :=
  decodeFrom_append_cons (Nat.zero_le _) hb ys

/-! ## Where ASCII characters come from -/

/-- An ASCII character comes from its own byte. -/
theorem exists_byte_of_mem_decodeFrom {c : Char} (hc : c.toNat < 128) {skip : Nat}
    {bytes : List UInt8} (h : c ∈ decodeFrom skip bytes []) :
    ∃ b ∈ bytes, IsAscii b ∧ c = asciiChar b := by
  induction bytes generalizing skip with
  | nil => simp [decodeFrom] at h
  | cons x xs ih =>
      have hlater {skip : Nat} (h : c ∈ decodeFrom skip xs []) :
          ∃ b ∈ x :: xs, IsAscii b ∧ c = asciiChar b := by
        rcases ih h with ⟨b, hb, hcome⟩
        exact ⟨b, List.mem_cons_of_mem _ hb, hcome⟩
      cases skip with
      | succ skip => exact hlater h
      | zero =>
          cases hat : charAt? (x :: xs) with
          | none =>
              rw [decodeFrom_of_none hat] at h
              rcases List.mem_cons.1 h with rfl | h
              · exact absurd hc (by decide)
              · exact hlater h
          | some found =>
              rw [decodeFrom_of_some hat] at h
              rcases List.mem_cons.1 h with rfl | h
              · rcases charAt?_eq_some hat with ⟨hx, hchar, -⟩ | ⟨hbeyond, -, -⟩
                · exact ⟨x, List.mem_cons_self, hx, hchar⟩
                · omega
              · exact hlater h

/-- The bytes around an ASCII character: what is read before it and behind it is read from the bytes
before and behind its own. -/
theorem exists_bytes_of_decodeBytes {bytes : List UInt8} {before behind : List Char} {c : Char}
    (hc : c.toNat < 128) (h : decodeBytes bytes = before ++ c :: behind) :
    ∃ xs b ys, bytes = xs ++ b :: ys ∧ IsAscii b ∧ c = asciiChar b ∧ decodeBytes xs = before ∧
      decodeBytes ys = behind := by
  induction hlength : bytes.length using Nat.strongRecOn generalizing bytes before behind with
  | ind n ih =>
      have hmem : c ∈ decodeBytes bytes := by simp [h]
      rcases exists_byte_of_mem_decodeFrom hc hmem with ⟨b, hb, hascii, hchar⟩
      rcases List.append_of_mem hb with ⟨xs, ys, rfl⟩
      rw [decodeBytes_append_cons xs hascii ys] at h
      simp only [List.length_append, List.length_cons] at hlength
      -- The byte found may belong to an earlier or a later occurrence of the character.
      rcases List.append_eq_append_iff.1 h with ⟨mid, hbefore, hrest⟩ | ⟨mid, hxs, hrest⟩ <;>
        rcases mid with _ | ⟨d, mid⟩
      · cases hrest
        exact ⟨xs, b, ys, rfl, hascii, rfl, by simpa using hbefore.symm, rfl⟩
      · obtain ⟨rfl, hys⟩ := List.cons.inj hrest
        rcases ih ys.length (by omega) hys rfl with ⟨xs', b', ys', rfl, hascii', hc', hxs', hys'⟩
        refine ⟨xs ++ b :: xs', b', ys', by simp, hascii', hc', ?_, hys'⟩
        rw [decodeBytes_append_cons xs hascii xs', hxs', hbefore]
      · cases hrest
        exact ⟨xs, b, ys, rfl, hascii, rfl, by simpa using hxs, rfl⟩
      · obtain ⟨rfl, hbehind⟩ := List.cons.inj hrest
        rcases ih xs.length (by omega) hxs rfl with ⟨xs', b', ys', rfl, hascii', hc', hxs', hys'⟩
        refine ⟨xs', b', ys' ++ b :: ys, by simp, hascii', hc', hxs', ?_⟩
        rw [decodeBytes_append_cons ys' hascii ys, hys']
        exact hbehind.symm

/-- Where only ASCII is read, each byte is a character. -/
theorem decodeBytes_of_ascii {bytes : List UInt8} (h : ∀ c ∈ decodeBytes bytes, c.toNat < 128) :
    (∀ b ∈ bytes, IsAscii b) ∧ decodeBytes bytes = bytes.map asciiChar := by
  induction bytes with
  | nil => exact ⟨by simp, rfl⟩
  | cons b rest ih =>
      cases hat : charAt? (b :: rest) with
      | none =>
          rw [decodeBytes, decodeFrom_of_none hat] at h
          exact absurd (h _ List.mem_cons_self) (by decide)
      | some found =>
          have hdecode : decodeBytes (b :: rest) = _ := decodeFrom_of_some hat
          rw [hdecode] at h ⊢
          have ⟨hfirst, hothers⟩ := List.forall_mem_cons.1 h
          rcases charAt?_eq_some hat with ⟨hb, hchar, hone⟩ | ⟨hbeyond, -, -⟩
          · rw [hone] at hothers ⊢
            have ⟨hascii, hrest⟩ := ih hothers
            rw [hchar, List.map_cons, ← hrest]
            exact ⟨List.forall_mem_cons.2 ⟨hb, hascii⟩, rfl⟩
          · omega

/-! ## Texts and their bytes -/

theorem toList_eq_data_toList (bytes : ByteArray) : bytes.toList = bytes.data.toList := by
  have hloop (i : Nat) (read : List UInt8) :
      ByteArray.toList.loop bytes i read = read.reverse ++ bytes.data.toList.drop i := by
    fun_induction ByteArray.toList.loop bytes i read with
    | case1 i read hi ih =>
        have hdrop := List.drop_eq_getElem_cons (l := bytes.data.toList) (i := i) hi
        rw [ih, hdrop]
        simp [ByteArray.get!, getElem!_pos bytes.data i hi]
    | case2 i read hi =>
        rw [List.drop_of_length_le (Nat.le_of_not_lt hi), List.append_nil]
  simpa [ByteArray.toList] using hloop 0 []

theorem encodeText_eq_flatMap (s : String) :
    encodeText s = s.toList.flatMap String.utf8EncodeChar := by
  rw [encodeText, String.toUTF8, ← String.utf8Encode_toList, toList_eq_data_toList,
    List.utf8Encode, List.toList_data_toByteArray]

theorem encodeText_append (s t : String) : encodeText (s ++ t) = encodeText s ++ encodeText t := by
  simp [encodeText_eq_flatMap]

theorem toNat_ofNat_byte {n : Nat} (h : n < 256) : (UInt8.ofNat n).toNat = n := by
  simpa using h

theorem continuation?_ofNat {n : Nat} (h : n < 64) :
    continuation? (UInt8.ofNat (n + 128)) = some n := by
  have hnat : (UInt8.ofNat (n + 128)).toNat = n + 128 := toNat_ofNat_byte (by omega)
  unfold continuation?
  simp only [UInt8.le_iff_toNat_le, UInt8.lt_iff_toNat_lt, hnat, UInt8.reduceToNat]
  rw [if_pos (by simp; omega), Nat.add_sub_cancel]

theorem scalar?_toNat {least : Nat} {c : Char} (h : least ≤ c.toNat) :
    scalar? least c.toNat = some c := by
  have hvalid : c.toNat.isValidChar := c.valid
  simp [scalar?, h, hvalid]

section Forms

variable {b b₁ b₂ b₃ : UInt8} {n₁ n₂ n₃ : Nat} {c : Char} (rest : List UInt8)

theorem charAt?_two (hlow : 0xC0 ≤ b) (hhigh : b < 0xE0) (h₁ : continuation? b₁ = some n₁)
    (hn : (b.toNat - 0xC0) * 64 + n₁ = c.toNat) (hc : 0x80 ≤ c.toNat) :
    charAt? (b :: b₁ :: rest) = some (c, 2) := by
  have hnot (k : UInt8) (hk : k ≤ 0xC0) : ¬ b < k := UInt8.not_lt.2 (UInt8.le_trans hk hlow)
  unfold charAt?
  dsimp only
  rw [if_neg (hnot 0x80 (by decide)), if_neg (hnot 0xC0 (by decide)), if_pos hhigh]
  simp only [Option.bind_eq_bind, Option.bind_eq_some_iff]
  exact ⟨n₁, h₁, c, hn ▸ scalar?_toNat hc, rfl⟩

theorem charAt?_three (hlow : 0xE0 ≤ b) (hhigh : b < 0xF0) (h₁ : continuation? b₁ = some n₁)
    (h₂ : continuation? b₂ = some n₂) (hn : (b.toNat - 0xE0) * 4096 + n₁ * 64 + n₂ = c.toNat)
    (hc : 0x800 ≤ c.toNat) : charAt? (b :: b₁ :: b₂ :: rest) = some (c, 3) := by
  have hnot (k : UInt8) (hk : k ≤ 0xE0) : ¬ b < k := UInt8.not_lt.2 (UInt8.le_trans hk hlow)
  unfold charAt?
  dsimp only
  rw [if_neg (hnot 0x80 (by decide)), if_neg (hnot 0xC0 (by decide)),
    if_neg (hnot 0xE0 (by decide)), if_pos hhigh]
  simp only [Option.bind_eq_bind, Option.bind_eq_some_iff]
  exact ⟨n₁, h₁, n₂, h₂, c, hn ▸ scalar?_toNat hc, rfl⟩

theorem charAt?_four (hlow : 0xF0 ≤ b) (hhigh : b < 0xF8) (h₁ : continuation? b₁ = some n₁)
    (h₂ : continuation? b₂ = some n₂) (h₃ : continuation? b₃ = some n₃)
    (hn : (b.toNat - 0xF0) * 262144 + n₁ * 4096 + n₂ * 64 + n₃ = c.toNat)
    (hc : 0x10000 ≤ c.toNat) : charAt? (b :: b₁ :: b₂ :: b₃ :: rest) = some (c, 4) := by
  have hnot (k : UInt8) (hk : k ≤ 0xF0) : ¬ b < k := UInt8.not_lt.2 (UInt8.le_trans hk hlow)
  unfold charAt?
  dsimp only
  rw [if_neg (hnot 0x80 (by decide)), if_neg (hnot 0xC0 (by decide)),
    if_neg (hnot 0xE0 (by decide)), if_neg (hnot 0xF0 (by decide)), if_pos hhigh]
  simp only [Option.bind_eq_bind, Option.bind_eq_some_iff]
  exact ⟨n₁, h₁, n₂, h₂, n₃, h₃, c, hn ▸ scalar?_toNat hc, rfl⟩

end Forms

/-- The bytes of a character are read as this character. -/
theorem charAt?_utf8EncodeChar (c : Char) (rest : List UInt8) :
    charAt? (String.utf8EncodeChar c ++ rest) = some (c, (String.utf8EncodeChar c).length) := by
  have hc : c.toNat < 0x110000 := by
    rcases c.valid with h | ⟨-, h⟩
    · exact Nat.lt_trans h (by decide)
    · exact h
  have hval : c.val.toNat = c.toNat := rfl
  -- A leading byte keeps its value, so it is between the bounds of its form.
  have hnat (n : Nat) (h : n < 256) : (UInt8.ofNat n).toNat = n := toNat_ofNat_byte h
  have hle (k : UInt8) {n : Nat} (h : n < 256) (hk : k.toNat ≤ n) : k ≤ UInt8.ofNat n := by
    rwa [UInt8.le_iff_toNat_le, hnat n h]
  have hlt (k : UInt8) {n : Nat} (h : n < 256) (hk : n < k.toNat) : UInt8.ofNat n < k := by
    rwa [UInt8.lt_iff_toNat_lt, hnat n h]
  simp only [String.utf8EncodeChar, hval]
  split
  · next hone =>
    have hascii : IsAscii (UInt8.ofNat c.toNat) := hlt 0x80 (by omega) (by simp; omega)
    rw [List.cons_append, charAt?_of_isAscii hascii, asciiChar, hnat _ (by omega),
      Char.ofNat_toNat]
    rfl
  split
  · have hlead := hnat (c.toNat / 64 % 32 + 192) (by omega)
    exact charAt?_two _ (hle 0xC0 (by omega) (by simp)) (hlt 0xE0 (by omega) (by simp; omega))
      (continuation?_ofNat (by omega)) (by omega) (by omega)
  split
  · have hlead := hnat (c.toNat / 4096 % 16 + 224) (by omega)
    exact charAt?_three _ (hle 0xE0 (by omega) (by simp)) (hlt 0xF0 (by omega) (by simp; omega))
      (continuation?_ofNat (by omega)) (continuation?_ofNat (by omega)) (by omega) (by omega)
  · have hlead := hnat (c.toNat / 262144 % 8 + 240) (by omega)
    exact charAt?_four _ (hle 0xF0 (by omega) (by simp)) (hlt 0xF8 (by omega) (by simp; omega))
      (continuation?_ofNat (by omega)) (continuation?_ofNat (by omega))
      (continuation?_ofNat (by omega)) (by omega) (by omega)

theorem decodeFrom_append {xs : List UInt8} (ys : List UInt8) :
    decodeFrom xs.length (xs ++ ys) [] = decodeBytes ys := by
  induction xs with
  | nil => rfl
  | cons x xs ih => exact ih

theorem decodeBytes_utf8EncodeChar_append (c : Char) (rest : List UInt8) :
    decodeBytes (String.utf8EncodeChar c ++ rest) = c :: decodeBytes rest := by
  have hat := charAt?_utf8EncodeChar c rest
  have hlength := String.length_utf8EncodeChar c
  have hpos := Char.utf8Size_pos c
  cases hbytes : String.utf8EncodeChar c with
  | nil => simp [hbytes] at hlength; omega
  | cons b more =>
      rw [hbytes, List.cons_append] at hat
      rw [decodeBytes, List.cons_append, decodeFrom_of_some hat]
      exact congrArg (c :: ·) (decodeFrom_append rest)

/-- A text is read from its bytes. -/
theorem decodeBytes_encodeText (s : String) : decodeBytes (encodeText s) = s.toList := by
  rw [encodeText_eq_flatMap]
  induction s.toList with
  | nil => rfl
  | cons c cs ih => rw [List.flatMap_cons, decodeBytes_utf8EncodeChar_append, ih]

end Reckoner.Text
