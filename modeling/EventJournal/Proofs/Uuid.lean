import EventJournal.Proofs.Text.Digits
import EventJournal.Uuid

/-!
# Identifiers that are read back

The written form of an identifier is the grouped one of the four that are read
(`EventJournal.Uuid.parse?_render`). Its groups are told apart by their lengths alone, so that the
reader takes out exactly the digits that were put in (`EventJournal.Uuid.ofGrouped?_grouped`).
-/

namespace EventJournal

namespace Uuid

theorem length_grouped {cs : List Char} (h : cs.length = 32) : (grouped cs).length = 36 := by
  simp [grouped, h]

theorem take_drop_append_drop (cs : List Char) (i k : Nat) :
    (cs.drop i).take k ++ cs.drop (i + k) = cs.drop i := by
  rw [← List.drop_drop, List.take_append_drop]

/-- **Digits in groups are the digits.** -/
theorem ofGrouped?_grouped {cs : List Char} (h : cs.length = 32) :
    ofGrouped? (grouped cs) = ofDigits? cs := by
  -- the five groups by name, so that each cut of the reader is at the length of some of them
  obtain ⟨a, ha⟩ : ∃ a, a = cs.take 8 := ⟨_, rfl⟩
  obtain ⟨b, hb⟩ : ∃ b, b = (cs.drop 8).take 4 := ⟨_, rfl⟩
  obtain ⟨c, hc⟩ : ∃ c, c = (cs.drop 12).take 4 := ⟨_, rfl⟩
  obtain ⟨d, hd⟩ : ∃ d, d = (cs.drop 16).take 4 := ⟨_, rfl⟩
  obtain ⟨e, he⟩ : ∃ e, e = cs.drop 20 := ⟨_, rfl⟩
  have hgrouped : grouped cs = a ++ '-' :: b ++ '-' :: c ++ '-' :: d ++ '-' :: e := by
    rw [grouped, ha, hb, hc, hd, he]
  have hcs : cs = a ++ (b ++ (c ++ (d ++ e))) := by
    rw [ha, hb, hc, hd, he, take_drop_append_drop cs 16 4, take_drop_append_drop cs 12 4,
      take_drop_append_drop cs 8 4, List.take_append_drop]
  have hla : a.length = 8 := by simp [ha, h]
  have hlb : b.length = 4 := by simp [hb, h]
  have hlc : c.length = 4 := by simp [hc, h]
  have hld : d.length = 4 := by simp [hd, h]
  have hle : e.length = 12 := by simp [he, h]
  obtain ⟨text, htext⟩ : ∃ text, text = a ++ '-' :: b ++ '-' :: c ++ '-' :: d ++ '-' :: e :=
    ⟨_, rfl⟩
  have hlength : text.length = 36 := by simp [htext, hla, hlb, hlc, hld, hle]
  obtain ⟨h₈, h₁₃, h₁₈, h₂₃⟩ : text[8]? = some '-' ∧ text[13]? = some '-' ∧
      text[18]? = some '-' ∧ text[23]? = some '-' := by
    simp [htext, List.getElem?_append, hla, hlb, hlc, hld]
  have hdigits : text.take 8 ++ (text.drop 9).take 4 ++ (text.drop 14).take 4 ++
      (text.drop 19).take 4 ++ text.drop 24 = cs := by
    rw [htext, hcs]
    simp (disch := omega) [List.drop_append, List.drop_of_length_le, hla, hlb, hlc, hld]
  rw [hgrouped, ← htext]
  simp only [ofGrouped?, hdigits, hlength, h₈, h₁₃, h₁₈, h₂₃, decide_true, Bool.and_self, if_true]

/-- **An identifier comes back from its written form.** -/
theorem parse?_render (u : Uuid) : parse? u.render = some u := by
  have hlength : u.digits.length = 32 := Text.length_hexadecimal 32 u.value
  have hrender : u.render.length = 36 := length_grouped hlength
  have hvalue : u.value % 16 ^ 32 = u.value := Nat.mod_eq_of_lt u.isLt
  rw [parse?, if_neg (by omega), if_pos hrender, render, ofGrouped?_grouped hlength, ofDigits?,
    if_pos hlength, digits, Text.ofHexadecimal?_hexadecimal, Option.map_some, hvalue, ofNat]
  simp only [Nat.mod_eq_of_lt u.isLt]

end Uuid

end EventJournal
