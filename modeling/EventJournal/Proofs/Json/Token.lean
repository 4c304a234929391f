import EventJournal.Json.Printer
import EventJournal.Json.Token
import EventJournal.Proofs.Text.Digits

/-!
# The parts of a JSON text, read back

A decimal numeral is read as its number (`EventJournal.Json.readUnsigned_decimal`), if what stands
behind it does not go on with it (`EventJournal.Json.EndsNumeral`). Which value a text begins with
is told by its first character, which is no blank and does not end a list
(`EventJournal.Json.Opens`). The digits of an escape are looked at as a whole
(`EventJournal.Json.readHex_ofChars`) and then passed over one by one
(`EventJournal.Json.readText_append`).
-/

namespace EventJournal

namespace Json

open Text (Source)

/-- Characters as a source. -/
def ofChars (cs : List Char) : Source := cs.map some

@[simp] theorem ofChars_nil : ofChars [] = [] := rfl

@[simp] theorem ofChars_cons (c : Char) (cs : List Char) :
    ofChars (c :: cs) = some c :: ofChars cs := rfl

@[simp] theorem ofChars_append (cs ds : List Char) :
    ofChars (cs ++ ds) = ofChars cs ++ ofChars ds := List.map_append

@[simp] theorem length_ofChars (cs : List Char) : (ofChars cs).length = cs.length :=
  List.length_map _

/-- What is done with a value that was read. -/
theorem bind_ok {ε α β : Type} (a : α) (f : α → Except ε β) : (Except.ok a >>= f) = f a := rfl

/-! ### The first character -/

/-- **A character that is no blank.** -/
def Solid (c : Char) : Prop := c ∉ [' ', '\n', '\t', '\r']

instance : DecidablePred Solid := fun c => inferInstanceAs (Decidable (c ∉ _))

theorem skipBlanks_cons {c : Char} (h : Solid c) (rest : Source) :
    skipBlanks (some c :: rest) = some c :: rest := by
  unfold skipBlanks
  split <;> simp_all [Solid]

theorem solid_of_isDigit {c : Char} (h : c.isDigit) : Solid c := by
  intro hmem
  simp only [List.mem_cons, List.not_mem_nil, or_false] at hmem
  rcases hmem with rfl | rfl | rfl | rfl <;> exact absurd h (by decide)

/-- A text that starts as a value does: with no blank, and not with the end of a list. -/
def Opens (cs : List Char) : Prop := ∃ c ds, cs = c :: ds ∧ Solid c ∧ c ≠ ']'

theorem Opens.ne_nil {cs : List Char} (h : Opens cs) : cs ≠ [] := by
  obtain ⟨c, ds, rfl, -⟩ := h
  exact List.cons_ne_nil c ds

theorem exists_decimal_eq (n : Nat) :
    ∃ c cs, Text.decimal n = c :: cs ∧ c.isDigit := by
  cases heq : Text.decimal n with
  | nil => exact absurd heq (Text.decimal_ne_nil n)
  | cons c cs =>
    have hmem : c ∈ Text.decimal n := heq ▸ List.mem_cons_self
    exact ⟨c, cs, rfl, Text.isDigit_of_mem_decimal hmem⟩

theorem opens_renderInteger (n : Int) : Opens (renderInteger n) := by
  by_cases hneg : n < 0
  · exact ⟨'-', Text.decimal n.natAbs, by rw [renderInteger, if_pos hneg]; rfl, by decide⟩
  · obtain ⟨c, cs, heq, hdigit⟩ := exists_decimal_eq n.natAbs
    refine ⟨c, cs, by rw [renderInteger, if_neg hneg, List.nil_append, heq],
      solid_of_isDigit hdigit, ?_⟩
    rintro rfl
    exact absurd hdigit (by decide)

/-! ### Numerals -/

/-- **A source that does not go on with a numeral.** -/
def EndsNumeral (rest : Source) : Prop :=
  ∀ c tail, rest = some c :: tail → c.isDigit = false ∧ c ≠ '.' ∧ c ≠ 'e' ∧ c ≠ 'E'

theorem endsNumeral_nil : EndsNumeral [] := nofun

theorem endsNumeral_cons {c : Char} (h : c.isDigit = false ∧ c ≠ '.' ∧ c ≠ 'e' ∧ c ≠ 'E')
    (rest : Source) : EndsNumeral (some c :: rest) := by
  rintro _ _ heq
  obtain ⟨heq, -⟩ := List.cons.inj heq
  obtain rfl := Option.some.inj heq
  exact h

/-- A source that does not go on with a digit. -/
def EndsDigits (rest : Source) : Prop :=
  ∀ c tail, rest = some c :: tail → c.isDigit = false

theorem EndsNumeral.endsDigits {rest : Source} (h : EndsNumeral rest) : EndsDigits rest :=
  fun c tail heq => (h c tail heq).1

theorem endsDigits_cons {c : Char} (h : c.isDigit = false) (rest : Source) :
    EndsDigits (some c :: rest) := by
  rintro _ _ heq
  obtain ⟨heq, -⟩ := List.cons.inj heq
  obtain rfl := Option.some.inj heq
  exact h

theorem spanDigits_ofChars {cs : List Char} (hcs : ∀ c ∈ cs, c.isDigit) {rest : Source}
    (hrest : EndsDigits rest) : spanDigits (ofChars cs ++ rest) = (cs, rest) := by
  induction cs with
  | nil =>
    rw [ofChars_nil, List.nil_append]
    unfold spanDigits
    split
    · next c tail =>
      rw [if_neg (by rw [hrest c tail rfl]; exact Bool.false_ne_true)]
    · rfl
  | cons c cs ih =>
    rw [List.forall_mem_cons] at hcs
    rw [ofChars_cons, List.cons_append, spanDigits, if_pos hcs.1, ih hcs.2]

theorem le_foldl_digits (n : Nat) (cs : List Char) :
    n ≤ cs.foldl (fun n c => n * 10 + Text.digitValue c) n := by
  induction cs generalizing n with
  | nil => exact Nat.le_refl n
  | cons c cs ih =>
    have hstep : n ≤ n * 10 + Text.digitValue c := by omega
    exact Nat.le_trans hstep (ih _)

/-- No digit is left over as long as sixty-four bits hold the number. -/
theorem pushDigits_of_le {n : Nat} {cs : List Char}
    (h : cs.foldl (fun n c => n * 10 + Text.digitValue c) n ≤ Text.maxWord) :
    pushDigits n cs = (cs.foldl (fun n c => n * 10 + Text.digitValue c) n, 0) := by
  induction cs generalizing n with
  | nil => rfl
  | cons c cs ih =>
    have hle := Nat.le_trans (le_foldl_digits (n * 10 + Text.digitValue c) cs) h
    rw [pushDigits, if_pos hle, ih h, List.foldl_cons]

/-- **A decimal numeral is read as its number.** -/
theorem readUnsigned_decimal (negative : Bool) {n : Nat} (hn : n ≤ Text.maxWord) {rest : Source}
    (hrest : EndsNumeral rest) :
    readUnsigned negative (ofChars (Text.decimal n) ++ rest) =
      .ok (wholeNumber negative n, rest) := by
  have hdigits : ∀ c ∈ Text.decimal n, c.isDigit := fun _ => Text.isDigit_of_mem_decimal
  have hspan := spanDigits_ofChars hdigits hrest.endsDigits
  have hvalue := Text.ofDigits_decimal n
  rw [Text.ofDigits] at hvalue
  have hpush := pushDigits_of_le (Nat.le_trans (Nat.le_of_eq hvalue) hn)
  rw [hvalue] at hpush
  rw [readUnsigned, hspan]
  split
  · next heq => exact absurd (congrArg Prod.fst heq) (Text.decimal_ne_nil n)
  · next heq => exact absurd (congrArg Prod.fst heq) (Text.decimal_ne_nil n)
  · next heq =>
    have hzero := Text.eq_nil_of_decimal (congrArg Prod.fst heq)
    cases hzero
  · next heq =>
    cases heq
    rw [hpush]
    dsimp only
    split
    · exact absurd rfl (hrest _ _ rfl).2.1
    · exact absurd rfl (hrest _ _ rfl).2.2.1
    · exact absurd rfl (hrest _ _ rfl).2.2.2
    · rfl

theorem wholeNumber_of_nonneg {n : Int} (h : 0 ≤ n) :
    wholeNumber false n.natAbs = .integer n := by
  rw [wholeNumber, if_pos (by decide), Int.natAbs_of_nonneg h]

/-- A negative number that a signed word holds. -/
theorem wholeNumber_of_neg {n : Int} (h : n < 0) (hlow : -0x8000000000000000 ≤ n) :
    wholeNumber true n.natAbs = .integer n := by
  rw [wholeNumber, if_neg (by decide), if_neg (by simp; omega),
    Int.ofNat_natAbs_of_nonpos (Int.le_of_lt h), Int.neg_neg]

/-! ### Quoted texts -/

theorem readHex_ofChars {digits : List Char} (hlength : digits.length = 4) {n : Nat}
    (hn : Text.ofHexadecimal? digits = some n) (rest : Source) :
    readHex (ofChars digits ++ rest) = .ok n := by
  have htake : (ofChars digits ++ rest).take 4 = ofChars digits := by
    rw [List.take_append_of_le_length (by simp [hlength]),
      List.take_of_length_le (by simp [hlength])]
  have hdigits : (ofChars digits).filterMap id = digits := by
    rw [ofChars, List.filterMap_map]
    exact List.filterMap_some
  simp only [readHex, htake, hdigits, hlength, if_true, hn]

/-- The rest of an escape is passed over. -/
theorem readText_append (skipped : List Char) (sound : Bool) (rest : Source) :
    readText skipped.length sound (ofChars skipped ++ rest) = readText 0 sound rest := by
  induction skipped with
  | nil => rfl
  | cons c skipped ih =>
    rw [List.length_cons, ofChars_cons, List.cons_append, readText]
    exact ih

end Json

end EventJournal
