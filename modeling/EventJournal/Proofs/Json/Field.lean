import EventJournal.Proofs.Json.Outcome
import EventJournal.Proofs.Json.Quotation
import EventJournal.Proofs.Rfc3339
import EventJournal.Proofs.Uuid

/-!
# Fields that are read

A field of any kind makes the same of a well-formed value wherever the value stands
(`EventJournal.Json.WellFormed.yields`): what it makes of it alone (`EventJournal.Json.valueOf?`),
which is nothing if the value is of another kind, and so for the word that stands for no value
(`EventJournal.Json.valueOf?_null`).

A value is read from each of its spellings (`EventJournal.Json.Datum.Spelled.yields`), if its
numbers are within their bounds and its moment is in the common form
(`EventJournal.Json.Datum.IsWritable`). What is written of a value is one of its spellings
(`EventJournal.Json.Datum.spelled_render`): no identifier and no moment has a character that would
have to be escaped.

| Kind | Reader | Outcome |
|---|---|---|
| `text` | `readQuoted` | `yields_quotation` |
| `word`, `signed` | `readBetween` | `yields_between_numeral`, `yields_integer` |
| `bytes` | `readListOf readByte` | `yields_bytes` |
| `uuid`, `instant` | `readThrough` | `Yields.through` |
-/

namespace EventJournal

namespace Json

open Text (Source)

/-! ### The readers of fields -/

theorem yields_quotation (letters : List Letter) :
    Yields readQuoted (quotation letters) ((meaning? letters).map String.ofList) := by
  intro rest _
  rw [quotation, List.cons_append, ofChars_cons, List.cons_append, readQuoted,
    skipBlanks_cons (c := '"') (by decide)]
  simp only [ofChars_append, ofChars_cons, ofChars_nil, List.append_assoc, List.cons_append,
    List.nil_append, readString, readText_letters]
  cases meaning? letters <;> rfl

theorem yields_quoted_none {cs : List Char} (h : Opens cs) (hne : ∀ ds, cs ≠ '"' :: ds) :
    Yields readQuoted cs none := by
  intro rest _
  rw [readQuoted, skipBlanks_of_opens h]
  split
  · next heq =>
    obtain ⟨ds, hds⟩ := h.eq_cons heq
    exact absurd hds (hne ds)
  · rfl

theorem yields_list_none {α : Type} {item : Source → Except ReadError (α × Source)}
    {cs : List Char} (h : Opens cs) (hne : ∀ ds, cs ≠ '[' :: ds) :
    Yields (readListOf item) cs none := by
  intro rest _
  rw [readListOf, skipBlanks_of_opens h]
  split
  · next heq =>
    obtain ⟨ds, hds⟩ := h.eq_cons heq
    exact absurd hds (hne ds)
  · rfl

theorem yields_between_none {least greatest : Int} {c : Char} (hsolid : Solid c)
    (hc : c ≠ '-' ∧ c.isDigit = false) (cs : List Char) :
    Yields (readBetween least greatest) (c :: cs) none := by
  intro rest _
  rw [ofChars_cons, List.cons_append, readBetween, skipBlanks_cons hsolid]
  dsimp only
  split
  · next heq =>
    cases heq
    exact absurd rfl hc.1
  · next heq =>
    cases heq
    rw [if_neg (by rw [hc.2]; exact Bool.false_ne_true)]
    rfl
  · rfl

/-- What a reader makes of a text that stands alone. -/
def outcome {α : Type} (read : Source → Except ReadError (α × Source)) (cs : List Char) :
    Option α :=
  (read (ofChars cs)).toOption.map Prod.fst

theorem Yields.outcome_eq {α : Type} {read : Source → Except ReadError (α × Source)}
    {cs : List Char} {v? : Option α} (h : Yields read cs v?) : outcome read cs = v? := by
  have halone := h [] endsNumeral_nil
  rw [List.append_nil] at halone
  rw [outcome, halone, Option.map_map]
  cases v? <;> rfl

theorem first_of_mem_words {cs : List Char} (h : cs ∈ words) :
    ∃ c ds, cs = c :: ds ∧ c ∈ ['n', 't', 'f'] := by
  simp only [words, List.mem_cons, List.not_mem_nil, or_false] at h
  rcases h with rfl | rfl | rfl <;> exact ⟨_, _, rfl, by decide⟩

theorem ne_of_mem_words {cs : List Char} (h : cs ∈ words) {c : Char} (hc : c ∉ ['n', 't', 'f'])
    (ds : List Char) : cs ≠ c :: ds := by
  obtain ⟨b, es, rfl, hb⟩ := first_of_mem_words h
  rintro heq
  exact hc ((List.cons.inj heq).1 ▸ hb)

theorem Figures.chars_ne (f : Figures) {c : Char} (hc : c ≠ '-' ∧ c.isDigit = false)
    (ds : List Char) : f.chars ≠ c :: ds := by
  obtain ⟨b, es, heq, hb⟩ := f.chars_eq
  rw [heq]
  rintro hcons
  obtain ⟨rfl, -⟩ := List.cons.inj hcons
  rcases hb with hb | hb
  · exact hc.1 hb
  · exact Bool.false_ne_true (hc.2.symm.trans hb)

theorem exists_yields_quoted {cs : List Char} (h : WellFormed cs) :
    ∃ s?, Yields readQuoted cs s? := by
  have hopens := h.opens
  cases h with
  | quoted letters => exact ⟨_, yields_quotation letters⟩
  | word hmem => exact ⟨none, yields_quoted_none hopens (ne_of_mem_words hmem (by decide))⟩
  | numeral f => exact ⟨none, yields_quoted_none hopens (f.chars_ne (by decide))⟩
  | list gap hitems => exact ⟨none, yields_quoted_none hopens nofun⟩
  | object gap hmembers => exact ⟨none, yields_quoted_none hopens nofun⟩

theorem Yields.through {α : Type} {cs : List Char} {s? : Option String}
    (h : Yields readQuoted cs s?) (ofText? : String → Option α) :
    Yields (readThrough ofText?) cs (s?.bind ofText?) := by
  intro rest hrest
  refine (h.bind hrest _).trans ?_
  cases s? with
  | none => rfl
  | some s =>
    dsimp only [Option.bind_some]
    cases ofText? s <;> rfl

/-- The whole number of a numeral, if it is within bounds. -/
def Numeral.within? (least greatest : Int) : Numeral → Option Int
  | .integer n => if least ≤ n ∧ n ≤ greatest then some n else none
  | .fraction _ => none

/-- The bounds are looked at when the numeral has been read. -/
def bounded (least greatest : Int) :
    Except ReadError (Numeral × Source) → Except ReadError (Int × Source)
  | .ok (.integer n, rest) =>
    if least ≤ n ∧ n ≤ greatest then .ok (n, rest) else .error .mismatched
  | .ok (.fraction _, _) => .error .mismatched
  | .error e => .error e

theorem toOption_bounded (least greatest : Int) {v? : Option Numeral} {rest : Source}
    {x : Except ReadError (Numeral × Source)} (h : x.toOption = v?.map (·, rest)) :
    (bounded least greatest x).toOption =
      (v?.bind (Numeral.within? least greatest)).map (·, rest) := by
  cases v? with
  | none =>
    cases x with
    | error e => rfl
    | ok p => cases h
  | some v =>
    cases x with
    | error e => cases h
    | ok p =>
      cases h
      cases v with
      | fraction y => rfl
      | integer n =>
        dsimp only [Option.bind_some, Numeral.within?, bounded]
        split <;> rfl

theorem yields_between_numeral (least greatest : Int) {f : Figures} {v? : Option Numeral}
    (h : Yields (readUnsigned f.negative) f.unsigned v?) :
    Yields (readBetween least greatest) f.chars (v?.bind (Numeral.within? least greatest)) := by
  intro rest hrest
  have hv := h rest hrest
  obtain ⟨c, cs, heq, hdigit⟩ := f.unsigned_eq
  rw [Figures.chars]
  cases hnegative : f.negative with
  | true =>
    rw [hnegative] at hv
    rw [if_pos rfl, ofChars_cons, List.cons_append, readBetween,
      skipBlanks_cons (c := '-') (by decide)]
    exact toOption_bounded least greatest hv
  | false =>
    rw [hnegative] at hv
    rw [if_neg Bool.false_ne_true, readBetween]
    rw [heq, ofChars_cons, List.cons_append] at hv ⊢
    rw [skipBlanks_cons (solid_of_isDigit hdigit)]
    dsimp only
    split
    · next hcons =>
      cases hcons
      exact absurd hdigit (by decide)
    · next hcons =>
      cases hcons
      rw [if_pos hdigit]
      exact toOption_bounded least greatest hv
    · next hminus hother => exact absurd rfl (hother c _)

theorem exists_yields_between (least greatest : Int) {cs : List Char} (h : WellFormed cs) :
    ∃ n?, Yields (readBetween least greatest) cs n? := by
  cases h with
  | numeral f =>
    obtain ⟨v?, hv⟩ := exists_yields_unsigned f.negative f
    exact ⟨_, yields_between_numeral least greatest hv⟩
  | word hmem =>
    simp only [words, List.mem_cons, List.not_mem_nil, or_false] at hmem
    rcases hmem with rfl | rfl | rfl <;>
      exact ⟨none, yields_between_none (by decide) (by decide) _⟩
  | quoted letters => exact ⟨none, yields_between_none (by decide) (by decide) _⟩
  | list gap hitems => exact ⟨none, yields_between_none (by decide) (by decide) _⟩
  | object gap hmembers => exact ⟨none, yields_between_none (by decide) (by decide) _⟩

theorem exists_yields_byte {cs : List Char} (h : WellFormed cs) :
    ∃ b?, Yields readByte cs b? := by
  obtain ⟨n?, hn⟩ := exists_yields_between 0 255 h
  exact ⟨_, hn.map fun n => UInt8.ofNat n.toNat⟩

theorem yields_bytes (gap : Gap) {items : List Item} (h : ∀ i ∈ items, WellFormed i.body) :
    Yields (readListOf readByte) (listText gap items)
      (items.mapM fun i => outcome readByte i.body) := by
  refine yields_list gap (fun i hi => ?_) fun i hi => (h i hi).opens
  obtain ⟨b?, hb⟩ := exists_yields_byte (h i hi)
  rwa [hb.outcome_eq]

theorem exists_yields_bytes {cs : List Char} (h : WellFormed cs) :
    ∃ bs?, Yields (readListOf readByte) cs bs? := by
  have hopens := h.opens
  cases h with
  | list gap hitems => exact ⟨_, yields_bytes gap hitems⟩
  | word hmem => exact ⟨none, yields_list_none hopens (ne_of_mem_words hmem (by decide))⟩
  | numeral f => exact ⟨none, yields_list_none hopens (f.chars_ne (by decide))⟩
  | quoted letters => exact ⟨none, yields_list_none hopens nofun⟩
  | object gap hmembers => exact ⟨none, yields_list_none hopens nofun⟩

section Kinds

variable {cs : List Char}

theorem Yields.text {s? : Option String} (h : Yields readQuoted cs s?) :
    Yields (readDatum .text) cs (s?.map Datum.text) := h.map Datum.text

theorem Yields.word {n? : Option Int} (h : Yields (readBetween 0 Text.maxWord) cs n?) :
    Yields (readDatum .word) cs (n?.map fun n => Datum.word n.toNat) :=
  h.map fun n => Datum.word n.toNat

theorem Yields.signed {n? : Option Int}
    (h : Yields (readBetween (-0x8000000000000000) 0x7FFFFFFFFFFFFFFF) cs n?) :
    Yields (readDatum .signed) cs (n?.map Datum.signed) := h.map Datum.signed

theorem Yields.bytes {bs? : Option (List UInt8)} (h : Yields (readListOf readByte) cs bs?) :
    Yields (readDatum .bytes) cs (bs?.map Datum.bytes) := h.map Datum.bytes

theorem Yields.uuid {s? : Option String} (h : Yields readQuoted cs s?) :
    Yields (readDatum .uuid) cs ((s?.bind Uuid.ofText?).map Datum.uuid) :=
  (h.through Uuid.ofText?).map Datum.uuid

theorem Yields.instant {s? : Option String} (h : Yields readQuoted cs s?) :
    Yields (readDatum .instant) cs
      ((s?.bind fun s => Instant.parse? s.toList).map Datum.instant) :=
  (h.through fun s => Instant.parse? s.toList).map Datum.instant

end Kinds

/-- **What a field of a kind makes of a value.** -/
def valueOf? (kind : Kind) (cs : List Char) : Option Datum := outcome (readDatum kind) cs

/-- **A well-formed value is read as a whole**, wherever it stands, or not at all. -/
theorem WellFormed.yields {cs : List Char} (h : WellFormed cs) (kind : Kind) :
    Yields (readDatum kind) cs (valueOf? kind cs) := by
  suffices hexists : ∃ d?, Yields (readDatum kind) cs d? by
    obtain ⟨d?, hd⟩ := hexists
    rwa [valueOf?, hd.outcome_eq]
  obtain ⟨s?, hs⟩ := exists_yields_quoted h
  cases kind with
  | text => exact ⟨_, hs.text⟩
  | word =>
    obtain ⟨n?, hn⟩ := exists_yields_between 0 Text.maxWord h
    exact ⟨_, hn.word⟩
  | signed =>
    obtain ⟨n?, hn⟩ := exists_yields_between (-0x8000000000000000) 0x7FFFFFFFFFFFFFFF h
    exact ⟨_, hn.signed⟩
  | bytes =>
    obtain ⟨bs?, hbs⟩ := exists_yields_bytes h
    exact ⟨_, hbs.bytes⟩
  | uuid => exact ⟨_, hs.uuid⟩
  | instant => exact ⟨_, hs.instant⟩

/-- **No field is made of the word for no value.** -/
theorem valueOf?_null (kind : Kind) : valueOf? kind nullText = none := by
  cases kind <;> rfl

/-! ### Values that fields can be given -/

/-- **A value that the reader of its field accepts**: its numbers are within bounds, and its moment
is written in the common form. -/
def Datum.IsWritable : Datum → Prop
  | .text _ | .bytes _ | .uuid _ => True
  | .word n => n ≤ Text.maxWord
  | .signed n => -0x8000000000000000 ≤ n ∧ n ≤ 0x7FFFFFFFFFFFFFFF
  | .instant i => i.IsCommon

instance : DecidablePred Datum.IsWritable
  | .text _ | .bytes _ | .uuid _ => .isTrue trivial
  | .word n => inferInstanceAs (Decidable (n ≤ _))
  | .signed n => inferInstanceAs (Decidable (_ ≤ n ∧ n ≤ _))
  | .instant i => inferInstanceAs (Decidable i.IsCommon)

/-- The kind of a value. -/
def Datum.kind : Datum → Kind
  | .text _ => .text
  | .word _ => .word
  | .signed _ => .signed
  | .bytes _ => .bytes
  | .uuid _ => .uuid
  | .instant _ => .instant

/-- **The spellings of a value**: any quotation that stands for its text, and for bytes any blanks
between the numbers. -/
inductive Datum.Spelled : Datum → List Char → Prop
  /-- A text. -/
  | text {s letters} : meaning? letters = some s.toList → Spelled (.text s) (quotation letters)
  /-- A natural number. -/
  | word (n) : Spelled (.word n) (Text.decimal n)
  /-- A signed number. -/
  | signed (n) : Spelled (.signed n) (renderInteger n)
  /-- Bytes. -/
  | bytes {bs} (gap : Gap) {items : List Item} :
    (items.map Item.body = bs.map fun b => Text.decimal b.toNat) →
      Spelled (.bytes bs) (listText gap items)
  /-- An identifier. -/
  | uuid {u letters} : meaning? letters = some u.render → Spelled (.uuid u) (quotation letters)
  /-- A moment. -/
  | instant {i letters} : meaning? letters = some i.render →
    Spelled (.instant i) (quotation letters)

/-- The digits of a number. -/
def Digits.ofNat (n : Nat) : Digits :=
  ⟨Text.decimal n, Text.decimal_ne_nil n, fun _ => Text.isDigit_of_mem_decimal⟩

/-- The numeral of a whole number. -/
def Figures.ofInt (n : Int) : Figures where
  negative := n < 0
  whole := Digits.ofNat n.natAbs
  shortest _ := Text.eq_nil_of_decimal
  decimals := none
  exponent := none

theorem Figures.unsigned_ofInt (n : Int) : (ofInt n).unsigned = Text.decimal n.natAbs := by
  simp [Figures.unsigned, Figures.fraction, ofInt, Digits.ofNat]

theorem Figures.chars_ofInt (n : Int) : (ofInt n).chars = renderInteger n := by
  rw [Figures.chars, Figures.unsigned_ofInt, renderInteger]
  by_cases hneg : n < 0 <;> simp [ofInt, hneg]

theorem renderInteger_natCast (n : Nat) : renderInteger n = Text.decimal n := by
  rw [renderInteger, if_neg (by omega), List.nil_append, Int.natAbs_natCast]

theorem yields_integer {least greatest n : Int} (hn : least ≤ n ∧ n ≤ greatest)
    (hlow : -0x8000000000000000 ≤ n) (hhigh : n ≤ 0xFFFFFFFFFFFFFFFF) :
    Yields (readBetween least greatest) (renderInteger n) (some n) := by
  have hword : n.natAbs ≤ Text.maxWord := by
    rw [Text.maxWord]
    omega
  have hread : Yields (readUnsigned (Figures.ofInt n).negative) (Figures.ofInt n).unsigned
      (some (.integer n)) := by
    intro rest hrest
    rw [Figures.unsigned_ofInt, readUnsigned_decimal _ hword hrest]
    by_cases hneg : n < 0
    · have hnegative : (Figures.ofInt n).negative = true := decide_eq_true hneg
      rw [hnegative, wholeNumber_of_neg hneg hlow]
      rfl
    · have hnegative : (Figures.ofInt n).negative = false := decide_eq_false hneg
      rw [hnegative, wholeNumber_of_nonneg (Int.not_lt.mp hneg)]
      rfl
  have hbetween := yields_between_numeral least greatest hread
  rw [Figures.chars_ofInt, Option.bind_some, Numeral.within?, if_pos hn] at hbetween
  exact hbetween

theorem wellFormed_renderInteger (n : Int) : WellFormed (renderInteger n) := by
  rw [← Figures.chars_ofInt]
  exact WellFormed.numeral _

theorem wellFormed_decimal (n : Nat) : WellFormed (Text.decimal n) := by
  rw [← renderInteger_natCast]
  exact wellFormed_renderInteger n

theorem wellFormed_of_decimals {items : List Item} {bs : List UInt8}
    (h : items.map Item.body = bs.map fun b => Text.decimal b.toNat) :
    ∀ i ∈ items, WellFormed i.body := by
  intro i hi
  have hbody : i.body ∈ items.map Item.body := List.mem_map_of_mem hi
  rw [h] at hbody
  obtain ⟨b, -, hb⟩ := List.mem_map.mp hbody
  rw [← hb]
  exact wellFormed_decimal b.toNat

theorem Datum.Spelled.wellFormed {d : Datum} {cs : List Char} (h : d.Spelled cs) :
    WellFormed cs := by
  cases h with
  | text hmeaning => exact WellFormed.quoted _
  | word n => exact wellFormed_decimal n
  | signed n => exact wellFormed_renderInteger n
  | bytes gap hitems => exact WellFormed.list gap (wellFormed_of_decimals hitems)
  | uuid hmeaning => exact WellFormed.quoted _
  | instant hmeaning => exact WellFormed.quoted _

theorem outcome_readByte (b : UInt8) : outcome readByte (Text.decimal b.toNat) = some b := by
  have hlt := b.toNat_lt
  have hread : Yields (readBetween 0 255) (Text.decimal b.toNat) (some (b.toNat : Int)) := by
    rw [← renderInteger_natCast]
    exact yields_integer (by omega) (by omega) (by omega)
  have hbyte := (hread.map fun n => UInt8.ofNat n.toNat).outcome_eq
  rw [Option.map_some, Int.toNat_natCast, UInt8.ofNat_toNat] at hbyte
  exact hbyte

theorem mapM_outcome_readByte {items : List Item} {bs : List UInt8}
    (h : items.map Item.body = bs.map fun b => Text.decimal b.toNat) :
    (items.mapM fun i => outcome readByte i.body) = some bs := by
  induction items generalizing bs with
  | nil =>
    cases bs with
    | nil => rfl
    | cons b bs => cases h
  | cons i items ih =>
    cases bs with
    | nil => cases h
    | cons b bs =>
      rw [List.map_cons, List.map_cons, List.cons.injEq] at h
      rw [List.mapM_cons, h.1, outcome_readByte, ih h.2]
      rfl

/-- **A value is read from each of its spellings.** -/
theorem Datum.Spelled.yields {d : Datum} {cs : List Char} (h : d.Spelled cs)
    (hwritable : d.IsWritable) : Yields (readDatum d.kind) cs (some d) := by
  cases h with
  | @text s letters hmeaning =>
    have hread := (yields_quotation letters).text
    rw [hmeaning, Option.map_some, Option.map_some, String.ofList_toList] at hread
    exact hread
  | word n =>
    have hread : Yields (readBetween 0 Text.maxWord) (Text.decimal n) (some (n : Int)) := by
      rw [IsWritable] at hwritable
      rw [← renderInteger_natCast]
      exact yields_integer (by omega) (by omega) (by rw [Text.maxWord] at hwritable; omega)
    have hword := hread.word
    rw [Option.map_some, Int.toNat_natCast] at hword
    exact hword
  | signed n =>
    obtain ⟨hlow, hhigh⟩ := hwritable
    exact (yields_integer ⟨hlow, hhigh⟩ hlow (by omega)).signed
  | bytes gap hitems =>
    have hread := (yields_bytes gap (wellFormed_of_decimals hitems)).bytes
    rw [mapM_outcome_readByte hitems] at hread
    exact hread
  | @uuid u letters hmeaning =>
    have hread := (yields_quotation letters).uuid
    rw [hmeaning] at hread
    simp only [Option.map_some, Option.bind_some, Uuid.ofText?, String.toList_ofList,
      Uuid.parse?_render] at hread
    exact hread
  | @instant i letters hmeaning =>
    have hread := (yields_quotation letters).instant
    rw [hmeaning] at hread
    simp only [Option.map_some, Option.bind_some, String.toList_ofList,
      Instant.parse?_render hwritable] at hread
    exact hread

/-! ### The spelling that is written -/

theorem isPlain_of_isDigit {c : Char} (h : c.isDigit) : IsPlain c := by
  obtain ⟨hlow, -⟩ := Text.toNat_of_isDigit h
  refine ⟨?_, ?_, by omega⟩
  · rintro rfl
    exact absurd h (by decide)
  · rintro rfl
    exact absurd h (by decide)

theorem isPlain_of_mem_hexadecimal {width n : Nat} {c : Char}
    (h : c ∈ Text.hexadecimal width n) : IsPlain c := by
  have hdigit : ∀ k < 16, IsPlain (Text.hexDigit k) := by decide
  induction width generalizing n with
  | zero => cases h
  | succ width ih =>
    rw [Text.hexadecimal, List.mem_append, List.mem_singleton] at h
    rcases h with h | rfl
    · exact ih h
    · exact hdigit _ (Nat.mod_lt _ (by decide))

theorem isPlain_of_mem_uuid {u : Uuid} {c : Char} (h : c ∈ u.render) : IsPlain c := by
  have hdigit : c ∈ u.digits → IsPlain c := isPlain_of_mem_hexadecimal
  have hmark : c = '-' → IsPlain c := by
    rintro rfl
    decide
  simp only [Uuid.render, Uuid.grouped, List.cons_append, List.append_assoc, List.mem_append,
    List.mem_cons] at h
  rcases h with h | h | h | h | h | h | h | h | h
  · exact hdigit (List.mem_of_mem_take h)
  · exact hmark h
  · exact hdigit (List.mem_of_mem_drop (List.mem_of_mem_take h))
  · exact hmark h
  · exact hdigit (List.mem_of_mem_drop (List.mem_of_mem_take h))
  · exact hmark h
  · exact hdigit (List.mem_of_mem_drop (List.mem_of_mem_take h))
  · exact hmark h
  · exact hdigit (List.mem_of_mem_drop h)

theorem isPlain_of_mem_padded {width n : Nat} {c : Char} (h : c ∈ Text.padded width n) :
    IsPlain c := isPlain_of_isDigit (Text.isDigit_of_mem_padded h)

theorem isPlain_of_mem_year {year : Int} {c : Char} (h : c ∈ Instant.renderYear year) :
    IsPlain c := by
  rw [Instant.renderYear] at h
  split at h
  · exact isPlain_of_mem_padded h
  · rcases List.mem_cons.mp h with rfl | h
    · split <;> decide
    · exact isPlain_of_mem_padded h

theorem isPlain_of_mem_fraction {nano : Nat} {c : Char} (h : c ∈ Instant.renderFraction nano) :
    IsPlain c := by
  have hpoint : ∀ {width n}, c ∈ '.' :: Text.padded width n → IsPlain c := by
    intro width n hmem
    rcases List.mem_cons.mp hmem with rfl | hmem
    · decide
    · exact isPlain_of_mem_padded hmem
  rw [Instant.renderFraction] at h
  split at h
  · cases h
  split at h
  · exact hpoint h
  split at h
  · exact hpoint h
  · exact hpoint h

theorem isPlain_of_mem_instant {i : Instant} {c : Char} (h : c ∈ i.render) : IsPlain c := by
  have hplain : ∀ mark ∈ ['-', 'T', ':', 'Z'], IsPlain mark := by simp [IsPlain]
  have hmark : ∀ {mark}, mark ∈ ['-', 'T', ':', 'Z'] → c = mark → IsPlain c := by
    rintro mark hmem rfl
    exact hplain _ hmem
  simp only [Instant.render, List.cons_append, List.append_assoc, List.mem_append, List.mem_cons,
    List.not_mem_nil, or_false] at h
  rcases h with h | h | h | h | h | h | h | h | h | h | h | h | h
  · exact isPlain_of_mem_year h
  · exact hmark (by decide) h
  · exact isPlain_of_mem_padded h
  · exact hmark (by decide) h
  · exact isPlain_of_mem_padded h
  · exact hmark (by decide) h
  · exact isPlain_of_mem_padded h
  · exact hmark (by decide) h
  · exact isPlain_of_mem_padded h
  · exact hmark (by decide) h
  · exact isPlain_of_mem_padded h
  · exact isPlain_of_mem_fraction h
  · exact hmark (by decide) h

theorem renderBytes_eq (bs : List UInt8) :
    renderBytes bs = separated (bs.map fun b => Text.decimal b.toNat) := by
  induction bs with
  | nil => rfl
  | cons b bs ih =>
    rw [renderBytes, ih, List.map_cons, separated_cons, List.append_assoc]
    cases bs with
    | nil => rfl
    | cons b' bs =>
      rw [List.map_cons, behindCommas_cons]
      rfl

/-- A value with no blanks around it. -/
def Item.compact (cs : List Char) : Item := ⟨Gap.none, cs, Gap.none⟩

theorem Item.chars_compact (cs : List Char) : (Item.compact cs).chars = cs := by
  simp [Item.compact, Item.chars]

/-- **What is written of a value is a spelling of it.** -/
theorem Datum.spelled_render (d : Datum) : d.Spelled d.render := by
  cases d with
  | text s =>
    obtain ⟨letters, hquote, hmeaning⟩ := exists_quotation_quote s
    rw [Datum.render, ← hquote]
    exact .text hmeaning
  | word n => exact .word n
  | signed n => exact .signed n
  | bytes bs =>
    have hrender : (Datum.bytes bs).render =
        listText Gap.none (bs.map fun b => Item.compact (Text.decimal b.toNat)) := by
      rw [Datum.render, renderBytes_eq, listText, List.map_map]
      simp only [Function.comp_def, Item.chars_compact]
      rfl
    rw [hrender]
    exact .bytes Gap.none (by rw [List.map_map]; rfl)
  | uuid u =>
    obtain ⟨letters, hquote, hmeaning⟩ :=
      @exists_quotation_of_isPlain u.render fun _ => isPlain_of_mem_uuid
    rw [Datum.render, ← hquote]
    exact .uuid hmeaning
  | instant i =>
    obtain ⟨letters, hquote, hmeaning⟩ :=
      @exists_quotation_of_isPlain i.render fun _ => isPlain_of_mem_instant
    rw [Datum.render, ← hquote]
    exact .instant hmeaning

end Json

end EventJournal
