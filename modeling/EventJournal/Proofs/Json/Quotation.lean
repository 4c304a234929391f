import EventJournal.Proofs.Json.Grammar

/-!
# Quotations that are read

A quotation is read as the text it stands for, and refused if it stands for none
(`EventJournal.Json.readText_letters`). Every text has a quotation, the one that is written
(`EventJournal.Json.exists_letters`), and so what is written of a text is read as the text
(`EventJournal.Json.readString_quote`).
-/

namespace EventJournal

namespace Json

open Text (Source)

/-! ### Quoted texts -/

theorem readEscape_short {mark c : Char} (h : (mark, c) ∈ shortEscapes) (rest : Source) :
    readEscape (ofChars [mark] ++ rest) = .ok (c, [mark].length) := by
  simp only [shortEscapes, List.mem_cons, List.not_mem_nil, or_false, Prod.mk.injEq] at h
  rcases h with ⟨rfl, rfl⟩ | ⟨rfl, rfl⟩ | ⟨rfl, rfl⟩ | ⟨rfl, rfl⟩ | ⟨rfl, rfl⟩ | ⟨rfl, rfl⟩ |
    ⟨rfl, rfl⟩ | ⟨rfl, rfl⟩ <;> rfl

section Codes

variable {digits : List Char} {n : Nat}
  (hcode : digits.length = 4 ∧ Text.ofHexadecimal? digits = some n)

include hcode

theorem readEscape_low (h : IsLow n) (rest : Source) :
    readEscape (some 'u' :: (ofChars digits ++ rest)) = .error .malformed := by
  rw [readEscape, readHex_ofChars hcode.1 hcode.2, bind_ok, if_pos (by simpa [IsLow] using h)]

theorem readEscape_code (hlow : ¬IsLow n) (hhigh : ¬IsHigh n) (rest : Source) :
    readEscape (some 'u' :: (ofChars digits ++ rest)) = .ok (Char.ofNat n, 5) := by
  have houtside : n < 0xD800 ∨ 0xE000 ≤ n := by
    rw [IsLow] at hlow
    rw [IsHigh] at hhigh
    omega
  rw [readEscape, readHex_ofChars hcode.1 hcode.2, bind_ok, if_neg (by simpa [IsLow] using hlow),
    if_pos (by simpa using houtside)]
  rfl

/-- What follows the first half of a surrogate pair decides. -/
theorem readEscape_high (h : IsHigh n) (rest : Source) :
    readEscape (some 'u' :: (ofChars digits ++ rest)) =
      match rest with
      | [] => .error .truncated
      | some '\\' :: rest =>
        match rest with
        | [] => .error .truncated
        | some 'u' :: rest => do
          let m ← readHex rest
          if 0xDC00 ≤ m && m < 0xE000 then return (ofHalves n m, 11) else .error .malformed
        | _ => .error .malformed
      | _ => .error .malformed := by
  have hdrop : (ofChars digits ++ rest).drop 4 = rest := by
    rw [List.drop_append_of_le_length (by simp [hcode.1]),
      List.drop_of_length_le (by simp [hcode.1]), List.nil_append]
  rw [IsHigh] at h
  rw [readEscape, readHex_ofChars hcode.1 hcode.2, bind_ok, if_neg (by simp; omega),
    if_neg (by simp; omega), hdrop]
  rfl

end Codes

theorem readEscape_pair {digits digits' : List Char} {n m : Nat}
    (hcode : digits.length = 4 ∧ Text.ofHexadecimal? digits = some n) (hhigh : IsHigh n)
    (hcode' : digits'.length = 4 ∧ Text.ofHexadecimal? digits' = some m) (hlow : IsLow m)
    (rest : Source) :
    readEscape (ofChars ('u' :: digits ++ '\\' :: 'u' :: digits') ++ rest) =
      .ok (ofHalves n m, 11) := by
  simp only [ofChars_append, ofChars_cons, List.cons_append, List.append_assoc,
    readEscape_high hcode hhigh, readHex_ofChars hcode'.1 hcode'.2, bind_ok]
  rw [if_pos (by simpa [IsLow] using hlow)]
  rfl

/-- The text of a quotation, or the fault of one that stands for no text. -/
def ofMeaning (rest : Source) : Option (List Char) → Except ReadError (List Char × Source)
  | some cs => .ok (cs, rest)
  | none => .error .malformed

/-- A character in front of a quotation that has been read. -/
theorem bind_ofMeaning (c : Char) (rest : Source) (cs? : Option (List Char)) :
    (do
      let (cs, rest) ← ofMeaning rest cs?
      return (c :: cs, rest)) = ofMeaning rest (cs?.map (c :: ·)) := by
  cases cs? <;> rfl

section Letters

variable {after rest : Source} {cs? : Option (List Char)}
  (hafter : readText 0 true after = ofMeaning rest cs?)

include hafter

theorem readText_plain {c : Char} (h : IsPlain c) :
    readText 0 true (some c :: after) = ofMeaning rest (cs?.map (c :: ·)) := by
  rw [readText, ← bind_ofMeaning, ← hafter]
  simp only [h.1, h.2.1, h.2.2, if_false]

/-- A character that is escaped. The reader looks at the whole escape and then goes over it once
more, for it takes one character at a time. -/
theorem readText_escape {escape : List Char} {c : Char}
    (h : readEscape (ofChars escape ++ after) = .ok (c, escape.length)) :
    readText 0 true (some '\\' :: (ofChars escape ++ after)) =
      ofMeaning rest (cs?.map (c :: ·)) := by
  have hsolidus : '\\' ≠ '"' := by decide
  rw [readText, ← bind_ofMeaning, ← hafter]
  simp only [hsolidus, if_false, if_true, h, bind_ok, readText_append]

end Letters

theorem readText_fault {rest : Source} {e : ReadError} (h : readEscape rest = .error e) :
    readText 0 true (some '\\' :: rest) = .error e := by
  have hsolidus : '\\' ≠ '"' := by decide
  rw [readText]
  simp only [hsolidus, if_false, if_true, h]
  rfl

theorem ofChars_letters_cons (letter : Letter) (letters : List Letter) (rest : Source) :
    ofChars ((letter :: letters).flatMap Letter.chars) ++ rest =
      ofChars letter.chars ++ (ofChars (letters.flatMap Letter.chars) ++ rest) := by
  rw [List.flatMap_cons, ofChars_append, List.append_assoc]

/-- **A quotation is read as what it stands for**, its first quotation mark having been read. -/
theorem readText_letters (letters : List Letter) (rest : Source) :
    readText 0 true (ofChars (letters.flatMap Letter.chars) ++ some '"' :: rest) =
      ofMeaning rest (meaning? letters) := by
  -- one case for each way in which the meaning of a quotation goes on or ends
  fun_induction meaning? letters with
  | case1 => rfl
  | case2 c hplain letters ih =>
    rw [ofChars_letters_cons]
    exact readText_plain ih hplain
  | case3 mark c hshort letters ih =>
    rw [ofChars_letters_cons]
    exact readText_escape ih (readEscape_short hshort _)
  | case4 digits n hcode letters hlow =>
    rw [ofChars_letters_cons]
    exact readText_fault (readEscape_low hcode hlow _)
  | case5 digits n hcode hlow hhigh digits' m hcode' letters hlow' ih =>
    have hread := readEscape_pair hcode hhigh hcode' hlow'
      (ofChars (letters.flatMap Letter.chars) ++ some '"' :: rest)
    have hlength : ('u' :: digits ++ '\\' :: 'u' :: digits').length = 11 := by
      simp [hcode.1, hcode'.1]
    rw [← hlength] at hread
    rw [← readText_escape ih hread, ofChars_letters_cons, ofChars_letters_cons]
    simp only [Letter.chars, ofChars_cons, ofChars_append, List.cons_append, List.append_assoc]
  | case6 digits n hcode hlow hhigh digits' m hcode' letters hlow' =>
    rw [ofChars_letters_cons, ofChars_letters_cons]
    refine readText_fault ((readEscape_high hcode hhigh _).trans ?_)
    simp only [Letter.chars, ofChars_cons, List.cons_append, readHex_ofChars hcode'.1 hcode'.2,
      bind_ok]
    rw [if_neg (by simpa [IsLow] using hlow')]
  | case7 digits n hcode hlow hhigh =>
    rw [ofChars_letters_cons]
    exact readText_fault (readEscape_high hcode hhigh _)
  | case8 digits n hcode hlow hhigh c hplain letters =>
    rw [ofChars_letters_cons, ofChars_letters_cons]
    refine readText_fault ((readEscape_high hcode hhigh _).trans ?_)
    simp only [Letter.chars, ofChars_cons, List.cons_append]
    -- no escape begins with a plain character
    split
    · next heq => cases heq
    · next heq =>
      cases heq
      exact absurd rfl hplain.2.1
    · rfl
  | case9 digits n hcode hlow hhigh mark c hshort letters =>
    rw [ofChars_letters_cons, ofChars_letters_cons]
    refine readText_fault ((readEscape_high hcode hhigh _).trans ?_)
    simp only [Letter.chars, ofChars_cons, List.cons_append]
    -- an escape begins here, but none of four digits
    split
    · next heq => cases heq
    · next heq =>
      cases heq
      exact absurd hshort (by simp [shortEscapes])
    · rfl
  | case10 digits n hcode letters hlow hhigh ih =>
    have hread := readEscape_code hcode hlow hhigh
      (ofChars (letters.flatMap Letter.chars) ++ some '"' :: rest)
    have hlength : ('u' :: digits).length = 5 := by rw [List.length_cons, hcode.1]
    rw [← hlength] at hread
    rw [ofChars_letters_cons]
    exact @readText_escape _ _ _ ih ('u' :: digits) _ hread

/-! ### The quotation that is written -/

theorem escapeChar_of_isPlain {c : Char} (h : IsPlain c) : escapeChar c = [c] := by
  unfold escapeChar
  split
  · exact absurd rfl h.1
  · exact absurd rfl h.2.1
  · exact absurd (by decide) h.2.2
  · exact absurd (by decide) h.2.2
  · exact absurd (by decide) h.2.2
  · exact absurd (by decide) h.2.2
  · exact absurd (by decide) h.2.2
  · exact if_neg h.2.2

theorem flatMap_escapeChar {cs : List Char} (h : ∀ c ∈ cs, IsPlain c) :
    cs.flatMap escapeChar = cs := by
  induction cs with
  | nil => rfl
  | cons c cs ih =>
    rw [List.forall_mem_cons] at h
    rw [List.flatMap_cons, escapeChar_of_isPlain h.1, ih h.2, List.singleton_append]

/-- What is written of a character is a spelling of it. -/
theorem exists_letter (c : Char) :
    ∃ letter : Letter, letter.chars = escapeChar c ∧
      ∀ letters, meaning? (letter :: letters) = (meaning? letters).map (c :: ·) := by
  unfold escapeChar
  split
  · exact ⟨.short '"' '"' (by decide), rfl, fun _ => rfl⟩
  · exact ⟨.short '\\' '\\' (by decide), rfl, fun _ => rfl⟩
  · exact ⟨.short 'n' '\n' (by decide), rfl, fun _ => rfl⟩
  · exact ⟨.short 'r' '\r' (by decide), rfl, fun _ => rfl⟩
  · exact ⟨.short 't' '\t' (by decide), rfl, fun _ => rfl⟩
  · exact ⟨.short 'b' '\x08' (by decide), rfl, fun _ => rfl⟩
  · exact ⟨.short 'f' '\x0c' (by decide), rfl, fun _ => rfl⟩
  · next hquote hsolidus _ _ _ _ _ =>
    split
    · next hlt =>
      have hmod : c.toNat % 16 ^ 4 = c.toNat := Nat.mod_eq_of_lt (by omega)
      have hcode := Text.ofHexadecimal?_hexadecimal 4 c.toNat
      rw [hmod] at hcode
      refine ⟨.code _ c.toNat ⟨Text.length_hexadecimal 4 _, hcode⟩, rfl, fun letters => ?_⟩
      have hlow : ¬IsLow c.toNat := by
        rw [IsLow]
        omega
      have hhigh : ¬IsHigh c.toNat := by
        rw [IsHigh]
        omega
      rw [meaning?.eq_def]
      dsimp only
      rw [if_neg hlow, if_neg hhigh, Char.ofNat_toNat]
    · next hge => exact ⟨.plain c ⟨hquote, hsolidus, hge⟩, rfl, fun _ => rfl⟩

/-- **The quotation that is written of a text stands for it.** -/
theorem exists_letters (cs : List Char) :
    ∃ letters, letters.flatMap Letter.chars = cs.flatMap escapeChar ∧
      meaning? letters = some cs := by
  induction cs with
  | nil => exact ⟨[], rfl, rfl⟩
  | cons c cs ih =>
    obtain ⟨letters, hchars, hmeaning⟩ := ih
    obtain ⟨letter, hletter, hcons⟩ := exists_letter c
    refine ⟨letter :: letters, ?_, ?_⟩
    · rw [List.flatMap_cons, List.flatMap_cons, hletter, hchars]
    · rw [hcons, hmeaning, Option.map_some]

theorem exists_quotation_quote (s : String) :
    ∃ letters, quotation letters = quote s ∧ meaning? letters = some s.toList := by
  obtain ⟨letters, hchars, hmeaning⟩ := exists_letters s.toList
  exact ⟨letters, by rw [quotation, quote, hchars], hmeaning⟩

/-- **What is quoted is read back**, its first quotation mark having been read. -/
theorem readString_quote (s : String) (rest : Source) :
    readString (ofChars (s.toList.flatMap escapeChar ++ ['"']) ++ rest) = .ok (s, rest) := by
  obtain ⟨letters, hchars, hmeaning⟩ := exists_letters s.toList
  rw [readString, ← hchars, ofChars_append, List.append_assoc, ofChars_cons, ofChars_nil,
    List.cons_append, List.nil_append, readText_letters, hmeaning, ofMeaning, bind_ok]
  simp only [String.ofList_toList]
  rfl

/-- A text that needs no escapes is written as it is. -/
theorem exists_quotation_of_isPlain {cs : List Char} (h : ∀ c ∈ cs, IsPlain c) :
    ∃ letters, quotation letters = '"' :: cs ++ ['"'] ∧ meaning? letters = some cs := by
  obtain ⟨letters, hchars, hmeaning⟩ := exists_letters cs
  exact ⟨letters, by rw [quotation, hchars, flatMap_escapeChar h], hmeaning⟩

end Json

end EventJournal
