import EventJournal.Text.Utf8

/-!
# Text that comes back from its bytes

The bytes of a text are read as the characters of the text
(`EventJournal.Text.Utf8.decode_flatMap`). For the bytes of one character, with whatever behind
them, are read as that character, and as many bytes are passed over as it has; how many these are
is told by the first.

| bytes | first byte from | code points from |
|---|---|---|
| 1 | `0x00` | `0x0` |
| 2 | `0xC2` | `0x80` |
| 3 | `0xE0` | `0x800` |
| 4 | `0xF0` | `0x10000` |
-/

namespace EventJournal

namespace Text

namespace Utf8

/-! ### Bytes -/

theorem toNat_ofNat_of_lt {n : Nat} (h : n < 256) : (UInt8.ofNat n).toNat = n := by
  rw [UInt8.toNat_ofNat']
  exact Nat.mod_eq_of_lt h

theorem continuation_ofNat (n : Nat) :
    continuation (UInt8.ofNat (n % 64 + 0x80)) = some (n % 64) := by
  have h := toNat_ofNat_of_lt (n := n % 64 + 0x80) (by omega)
  simp only [continuation, UInt8.le_iff_toNat_le, UInt8.lt_iff_toNat_lt, h]
  rw [if_pos (by simp; omega), Nat.add_sub_cancel]

/-! ### One character -/

section First

variable {b b₁ b₂ b₃ : UInt8} {n : Nat} (rest : List UInt8)

theorem first?_one (hb : b.toNat = n) (hn : n < 0x80) :
    first? (b :: rest) = some (Char.ofNat n, 0) := by
  simp only [first?, UInt8.lt_iff_toNat_lt, hb, UInt8.reduceToNat]
  rw [if_pos hn]

theorem first?_two (hb : b.toNat = n / 64 + 0xC0) (h₁ : continuation b₁ = some (n % 64))
    (hn : 0x80 ≤ n) (hn' : n < 0x800) :
    first? (b :: b₁ :: rest) = some (Char.ofNat n, 1) := by
  have hcode : (n / 64 + 0xC0 - 0xC0) * 64 + n % 64 = n := by omega
  simp only [first?, UInt8.lt_iff_toNat_lt, UInt8.le_iff_toNat_le, hb, h₁, Bool.and_eq_true,
    decide_eq_true_eq, UInt8.reduceToNat]
  rw [if_neg (by omega), if_pos (by omega), Option.map_some, hcode]

theorem first?_three (hb : b.toNat = n / 4096 + 0xE0)
    (h₁ : continuation b₁ = some (n / 64 % 64)) (h₂ : continuation b₂ = some (n % 64))
    (hn : 0x800 ≤ n) (hn' : n < 0x10000) (hvalid : n.isValidChar) :
    first? (b :: b₁ :: b₂ :: rest) = some (Char.ofNat n, 2) := by
  have hcode : (n / 4096 + 0xE0 - 0xE0) * 4096 + n / 64 % 64 * 64 + n % 64 = n := by omega
  simp only [first?, UInt8.lt_iff_toNat_lt, UInt8.le_iff_toNat_le, hb, h₁, h₂, Bool.and_eq_true,
    decide_eq_true_eq, UInt8.reduceToNat]
  rw [if_neg (by omega), if_neg (by omega), if_pos (by omega)]
  -- no surrogate is a character
  rw [Nat.isValidChar] at hvalid
  rw [Option.bind_eq_bind, Option.bind_some, Option.bind_some, if_pos (by simp; omega), hcode]

theorem first?_four (hb : b.toNat = n / 262144 + 0xF0)
    (h₁ : continuation b₁ = some (n / 4096 % 64)) (h₂ : continuation b₂ = some (n / 64 % 64))
    (h₃ : continuation b₃ = some (n % 64)) (hn : 0x10000 ≤ n) (hn' : n < 0x110000) :
    first? (b :: b₁ :: b₂ :: b₃ :: rest) = some (Char.ofNat n, 3) := by
  have hcode : (n / 262144 + 0xF0 - 0xF0) * 262144 + n / 4096 % 64 * 4096 + n / 64 % 64 * 64
      + n % 64 = n := by omega
  simp only [first?, UInt8.lt_iff_toNat_lt, UInt8.le_iff_toNat_le, hb, h₁, h₂, h₃,
    Bool.and_eq_true, decide_eq_true_eq, UInt8.reduceToNat]
  rw [if_neg (by omega), if_neg (by omega), if_neg (by omega), if_pos (by omega)]
  rw [Option.bind_eq_bind, Option.bind_some, Option.bind_some, Option.bind_some,
    if_pos (by omega), hcode]

end First

/-- **The bytes of a character** are read as the character. -/
theorem first?_encodeChar (c : Char) (rest : List UInt8) :
    first? (encodeChar c ++ rest) = some (c, (encodeChar c).length - 1) := by
  have hvalid : c.val.toNat.isValidChar := c.valid
  have hchar : Char.ofNat c.val.toNat = c := Char.ofNat_toNat c
  simp only [encodeChar, String.utf8EncodeChar]
  generalize c.val.toNat = n at hvalid hchar ⊢
  have hbound : n < 0x110000 := by
    rw [Nat.isValidChar] at hvalid
    omega
  subst hchar
  by_cases h₁ : n ≤ 0x7f
  · simp only [h₁, if_true]
    exact first?_one rest (toNat_ofNat_of_lt (by omega)) (by omega)
  by_cases h₂ : n ≤ 0x7ff
  · have hb : (UInt8.ofNat (n / 64 % 32 + 0xC0)).toNat = n / 64 + 0xC0 := by
      rw [toNat_ofNat_of_lt (by omega)]
      omega
    simp only [h₁, h₂, if_true, if_false]
    exact first?_two rest hb (continuation_ofNat n) (by omega) (by omega)
  by_cases h₃ : n ≤ 0xffff
  · have hb : (UInt8.ofNat (n / 4096 % 16 + 0xE0)).toNat = n / 4096 + 0xE0 := by
      rw [toNat_ofNat_of_lt (by omega)]
      omega
    simp only [h₁, h₂, h₃, if_true, if_false]
    exact first?_three rest hb (continuation_ofNat _) (continuation_ofNat n) (by omega) (by omega)
      hvalid
  · have hb : (UInt8.ofNat (n / 262144 % 8 + 0xF0)).toNat = n / 262144 + 0xF0 := by
      rw [toNat_ofNat_of_lt (by omega)]
      omega
    simp only [h₁, h₂, h₃, if_false]
    exact first?_four rest hb (continuation_ofNat _) (continuation_ofNat _) (continuation_ofNat n)
      (by omega) hbound

/-! ### Texts -/

/-- The rest of a character is passed over. -/
theorem decodeAfter_append (bytes rest : List UInt8) :
    decodeAfter bytes.length (bytes ++ rest) = decodeAfter 0 rest := by
  induction bytes with
  | nil => rfl
  | cons b bytes ih => exact ih

theorem decodeAfter_encodeChar (c : Char) (rest : List UInt8) :
    decodeAfter 0 (encodeChar c ++ rest) = some c :: decodeAfter 0 rest := by
  have hfirst := first?_encodeChar c rest
  cases hbytes : encodeChar c with
  | nil => exact absurd hbytes String.utf8EncodeChar_ne_nil
  | cons b more =>
    rw [hbytes, List.cons_append, List.length_cons, Nat.add_sub_cancel] at hfirst
    rw [List.cons_append, decodeAfter]
    simp only [hfirst, decodeAfter_append]

/-- **A text comes back from its bytes.** -/
theorem decode_flatMap (cs : List Char) : decode (cs.flatMap encodeChar) = cs.map some := by
  induction cs with
  | nil => rfl
  | cons c cs ih =>
    rw [decode, List.flatMap_cons, decodeAfter_encodeChar, ← decode, ih, List.map_cons]

end Utf8

end Text

end EventJournal
