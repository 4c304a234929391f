import EventJournal.Text.Digits
import Mathlib.Algebra.Group.Nat.Defs

/-!
# Numerals that are read back

The decimal numeral of a number, and its last hexadecimal digits, stand for what they were written
for. A decimal numeral has no zero at its front unless it is that of zero, so that a reader that
minds such zeros accepts it.
-/

namespace EventJournal

namespace Text

/-! ### Decimal -/

theorem toNat_of_isDigit {c : Char} (h : c.isDigit) : 48 ≤ c.toNat ∧ c.toNat ≤ 57 := by
  simpa [Char.isDigit, UInt32.le_iff_toNat_le] using h

theorem decimal_ne_nil (n : Nat) : decimal n ≠ [] := Nat.toDigits_ne_nil

theorem isDigit_of_mem_decimal {n : Nat} {c : Char} (h : c ∈ decimal n) : c.isDigit :=
  Nat.isDigit_of_mem_toDigits (by decide) (by decide) h

theorem ofDigits_eq (cs : List Char) : ofDigits cs = Nat.ofDigitChars 10 cs 0 := by
  rw [ofDigits, Nat.ofDigitChars_eq_foldl]
  congr 1
  funext n c
  rw [Nat.mul_comm, digitValue]

/-- **A decimal numeral stands for its number.** -/
theorem ofDigits_decimal (n : Nat) : ofDigits (decimal n) = n := by
  rw [ofDigits_eq]
  exact Nat.ofDigitChars_ten_toDigits

/-- A decimal numeral does not start with a zero that it could do without. -/
theorem eq_nil_of_decimal {n : Nat} {cs : List Char} (h : decimal n = '0' :: cs) : cs = [] := by
  -- all digits but the last are a numeral, which by induction has no zero to spare
  suffices hzero : ∀ n, (decimal n).head? = some '0' → n = 0 by
    have hn := hzero n (by rw [h]; rfl)
    subst hn
    rw [decimal, Nat.toDigits_zero] at h
    exact (List.cons.inj h).2.symm
  clear h n
  intro n
  induction n using Nat.base_induction 10 (by decide) with
  | single m hm =>
    rw [decimal, Nat.toDigits_of_lt_base hm]
    simp
  | digit m k hk hm ih =>
    intro hhead
    rw [decimal, ← Nat.toDigits_append_toDigits (by decide) hm hk, List.head?_append,
      Option.or_of_isSome (List.isSome_head?.mpr Nat.toDigits_ne_nil)] at hhead
    exact absurd (ih hhead) (Nat.pos_iff_ne_zero.mp hm)

/-! ### A fixed number of places -/

theorem ofDigits_replicate_append (k : Nat) (cs : List Char) :
    ofDigits (List.replicate k '0' ++ cs) = ofDigits cs := by
  induction k with
  | zero => rfl
  | succ k ih => exact ih

/-- **Leading zeros count for nothing.** -/
theorem ofDigits_padded (width n : Nat) : ofDigits (padded width n) = n := by
  rw [padded, ofDigits_replicate_append, ofDigits_decimal]

theorem isDigit_of_mem_padded {width n : Nat} {c : Char} (h : c ∈ padded width n) :
    c.isDigit := by
  rcases List.mem_append.mp h with hzero | hmem
  · rw [List.eq_of_mem_replicate hzero]
    decide
  · exact isDigit_of_mem_decimal hmem

theorem length_padded {width n : Nat} (hpos : 0 < width) (h : n < 10 ^ width) :
    (padded width n).length = width := by
  have hle : (decimal n).length ≤ width := (Nat.length_toDigits_le_iff (by decide) hpos).mpr h
  rw [padded, List.length_append, List.length_replicate]
  omega

/-! ### Hexadecimal -/

theorem length_hexadecimal (width n : Nat) : (hexadecimal width n).length = width := by
  induction width generalizing n with
  | zero => rfl
  | succ width ih => rw [hexadecimal, List.length_append, ih, List.length_singleton]

theorem hexValue?_hexDigit : ∀ n < 16, hexValue? (hexDigit n) = some n := by decide

theorem ofHexadecimal?_append_singleton (cs : List Char) (c : Char) :
    ofHexadecimal? (cs ++ [c]) =
      (ofHexadecimal? cs).bind fun n => (hexValue? c).map (n * 16 + ·) := by
  rw [ofHexadecimal?, List.foldlM_append]
  simp only [List.foldlM_cons, List.foldlM_nil, bind_pure]
  rfl

/-- **The last hexadecimal digits of a number** stand for its remainder. -/
theorem ofHexadecimal?_hexadecimal (width n : Nat) :
    ofHexadecimal? (hexadecimal width n) = some (n % 16 ^ width) := by
  induction width generalizing n with
  | zero => simp [hexadecimal, ofHexadecimal?, Nat.mod_one]
  | succ width ih =>
    rw [hexadecimal, ofHexadecimal?_append_singleton, ih, Option.bind_some,
      hexValue?_hexDigit _ (Nat.mod_lt _ (by decide)), Option.map_some, Nat.pow_succ',
      Nat.mod_mul]
    congr 1
    omega

end Text

end EventJournal
