import EventJournal.Json.Shape
import EventJournal.Proofs.Json.Passing

/-!
# What a reader makes of a text

The value that is read of a text does not depend on what stands behind the text, and the reader
stops right behind it (`EventJournal.Json.Yields`). So it is of every numeral
(`EventJournal.Json.exists_yields_unsigned`), and of a list if it is of its items
(`EventJournal.Json.yields_list`).
-/

namespace EventJournal

namespace Json

open Text (Source)

/-! ### What a reader makes of a text -/

/-- **A reader makes the same of a text wherever it stands**: a value, and stops right behind it, or
nothing. -/
def Yields {α : Type} (read : Source → Except ReadError (α × Source)) (cs : List Char)
    (v? : Option α) : Prop :=
  ∀ rest, EndsNumeral rest → (read (ofChars cs ++ rest)).toOption = v?.map (·, rest)

theorem Yields.eq_error {α : Type} {read : Source → Except ReadError (α × Source)}
    {cs : List Char} (h : Yields read cs none) {rest : Source} (hrest : EndsNumeral rest) :
    ∃ e, read (ofChars cs ++ rest) = .error e := by
  have hnone := h rest hrest
  cases hread : read (ofChars cs ++ rest) with
  | error e => exact ⟨e, rfl⟩
  | ok p =>
    rw [hread] at hnone
    cases hnone

theorem Yields.eq_ok {α : Type} {read : Source → Except ReadError (α × Source)} {cs : List Char}
    {v : α} (h : Yields read cs (some v)) {rest : Source} (hrest : EndsNumeral rest) :
    read (ofChars cs ++ rest) = .ok (v, rest) := by
  have hsome := h rest hrest
  cases hread : read (ofChars cs ++ rest) with
  | error e =>
    rw [hread] at hsome
    cases hsome
  | ok p =>
    rw [hread] at hsome
    exact congrArg _ (Option.some.inj hsome)

theorem toOption_bind {ε α β : Type} (x : Except ε α) (f : α → Except ε β) :
    (x >>= f).toOption = x.toOption.bind fun a => (f a).toOption := by
  cases x <;> rfl

/-- What is done with the value of a text that is read. -/
theorem Yields.bind {α β : Type} {read : Source → Except ReadError (α × Source)} {cs : List Char}
    {v? : Option α} (h : Yields read cs v?) {rest : Source} (hrest : EndsNumeral rest)
    (f : α × Source → Except ReadError β) :
    (read (ofChars cs ++ rest) >>= f).toOption = v?.bind fun v => (f (v, rest)).toOption := by
  rw [toOption_bind, h rest hrest, Option.bind_map]
  rfl

theorem Yields.map {α β : Type} {read : Source → Except ReadError (α × Source)} {cs : List Char}
    {v? : Option α} (h : Yields read cs v?) (f : α → β) :
    Yields (fun source => do
      let (v, rest) ← read source
      return (f v, rest)) cs (v?.map f) := by
  intro rest hrest
  refine (h.bind hrest _).trans ?_
  cases v? <;> rfl

/-! ### Numerals -/

section Numerals

variable (negative : Bool) (significand : Nat) (k : Int)

theorem exists_yields_fractionOf : ∃ v?, Yields (readFractionOf negative significand k) [] v? := by
  refine ⟨(Fraction.ofParts? negative significand k).map Numeral.fraction, ?_⟩
  intro rest _
  rw [ofChars_nil, List.nil_append, readFractionOf]
  cases Fraction.ofParts? negative significand k <;> rfl

/-- The exponent that digits behind a sign make of another. -/
def Exponent.shift (e : Exponent) (k : Int) : Int :=
  if e.sign = ['-'] then k - Text.ofDigits e.digits.chars else k + Text.ofDigits e.digits.chars

theorem readExponent_chars (e : Exponent) {rest : Source} (h : EndsDigits rest) :
    readExponent negative significand k (ofChars (e.sign ++ e.digits.chars) ++ rest) =
      readFractionOf negative significand (e.shift k) rest := by
  have hspan := e.digits.spanDigits h
  obtain ⟨c, cs, hchars⟩ := List.exists_cons_of_ne_nil e.digits.ne_nil
  rw [Exponent.shift]
  rcases e.isSign with hsign | hsign | hsign
  · rw [hsign, List.nil_append, readExponent]
    · rw [hspan, hchars]
      rfl
    · exact fun tail heq => e.digits.ofChars_ne (by decide) rest tail heq
    · exact fun tail heq => e.digits.ofChars_ne (by decide) rest tail heq
  · rw [hsign]
    simp only [List.cons_append, ofChars_cons, List.nil_append, readExponent]
    rw [hspan, hchars]
    rfl
  · rw [hsign]
    simp only [List.cons_append, ofChars_cons, List.nil_append, readExponent]
    rw [hspan, hchars]

/-- A numeral whose digits have been read, up to an exponent. -/
def readPower : Source → Except ReadError (Numeral × Source)
  | some 'e' :: rest | some 'E' :: rest => readExponent negative significand k rest
  | rest => readFractionOf negative significand k rest

theorem readPower_of_endsNumeral {rest : Source} (h : EndsNumeral rest) :
    readPower negative significand k rest = readFractionOf negative significand k rest := by
  rw [readPower]
  · exact fun tail heq => absurd rfl (h _ tail heq).2.2.1
  · exact fun tail heq => absurd rfl (h _ tail heq).2.2.2

theorem exists_yields_power (e? : Option Exponent) :
    ∃ v?, Yields (readPower negative significand k) (e?.elim [] Exponent.chars) v? := by
  cases e? with
  | none =>
    obtain ⟨v?, hv⟩ := exists_yields_fractionOf negative significand k
    refine ⟨v?, fun rest hrest => ?_⟩
    rw [← hv rest hrest, Option.elim_none, ofChars_nil, List.nil_append,
      readPower_of_endsNumeral _ _ _ hrest]
  | some e =>
    obtain ⟨v?, hv⟩ := exists_yields_fractionOf negative significand (e.shift k)
    refine ⟨v?, fun rest hrest => ?_⟩
    have hread := readExponent_chars negative significand k e hrest.endsDigits
    rw [← hv rest hrest, Option.elim_some, Exponent.chars, List.cons_append, ofChars_cons,
      List.cons_append, ofChars_nil, List.nil_append, ← hread]
    rcases e.isMark with hmark | hmark <;> rw [hmark] <;> rfl

theorem readDecimals_of_span {source rest : Source} {digits : List Char}
    (hspan : spanDigits source = (digits, rest)) (hne : digits ≠ []) :
    readDecimals negative significand k source =
      readPower negative (pushDigits significand digits).1
        (k - ((digits.length - (pushDigits significand digits).2 : Nat) : Int)) rest := by
  rw [readDecimals, hspan]
  split
  · next heq => exact absurd (congrArg Prod.fst heq) hne
  · next heq => exact absurd (congrArg Prod.fst heq) hne
  · next heq =>
    cases heq
    rfl

theorem exists_yields_decimals (d : Digits) (e? : Option Exponent) :
    ∃ v?, Yields (readDecimals negative significand k) (d.chars ++ e?.elim [] Exponent.chars)
      v? := by
  obtain ⟨v?, hv⟩ := exists_yields_power negative (pushDigits significand d.chars).1
    (k - ((d.chars.length - (pushDigits significand d.chars).2 : Nat) : Int)) e?
  refine ⟨v?, fun rest hrest => ?_⟩
  have hspan := d.spanDigits (endsDigits_exponent e? hrest)
  rw [← hv rest hrest, ofChars_append, List.append_assoc,
    readDecimals_of_span negative significand k hspan d.ne_nil]

/-- What is made of a numeral behind its whole digits. -/
def readFraction (digits : List Char) : Source → Except ReadError (Numeral × Source)
  | some '.' :: rest =>
    readDecimals negative (pushDigits 0 digits).1 ((pushDigits 0 digits).2 : Nat) rest
  | some 'e' :: rest | some 'E' :: rest =>
    readExponent negative (pushDigits 0 digits).1 ((pushDigits 0 digits).2 : Nat) rest
  | rest =>
    if (pushDigits 0 digits).2 = 0 then .ok (wholeNumber negative (pushDigits 0 digits).1, rest)
    else readFractionOf negative (pushDigits 0 digits).1 ((pushDigits 0 digits).2 : Nat) rest

theorem readUnsigned_of_span {source rest : Source} {digits : List Char}
    (hspan : spanDigits source = (digits, rest)) (hne : digits ≠ [])
    (hshortest : ∀ cs, digits = '0' :: cs → cs = []) :
    readUnsigned negative source = readFraction negative digits rest := by
  rw [readUnsigned, hspan]
  split
  · next heq => exact absurd (congrArg Prod.fst heq) hne
  · next heq => exact absurd (congrArg Prod.fst heq) hne
  · next heq => cases hshortest _ (congrArg Prod.fst heq)
  · next heq =>
    cases heq
    rfl

theorem exists_yields_fraction (f : Figures) (digits : List Char) :
    ∃ v?, Yields (readFraction negative digits) f.fraction v? := by
  rw [Figures.fraction]
  cases f.decimals with
  | some d => exact exists_yields_decimals negative _ _ d f.exponent
  | none =>
    rw [Option.elim_none, List.nil_append]
    cases f.exponent with
    | some e =>
      obtain ⟨v?, hv⟩ := exists_yields_power negative (pushDigits 0 digits).1
        ((pushDigits 0 digits).2 : Nat) (some e)
      refine ⟨v?, fun rest hrest => ?_⟩
      rw [← hv rest hrest, Option.elim_some, Exponent.chars, List.cons_append, ofChars_cons,
        List.cons_append]
      rcases e.isMark with hmark | hmark <;> rw [hmark] <;> rfl
    | none =>
      rw [Option.elim_none]
      -- the numeral is whole, unless it has more digits than are kept
      obtain ⟨v?, hv⟩ := exists_yields_fractionOf negative (pushDigits 0 digits).1
        ((pushDigits 0 digits).2 : Nat)
      have hread : ∀ rest, EndsNumeral rest → readFraction negative digits rest =
          if (pushDigits 0 digits).2 = 0 then
            .ok (wholeNumber negative (pushDigits 0 digits).1, rest)
          else readFractionOf negative (pushDigits 0 digits).1 ((pushDigits 0 digits).2 : Nat)
            rest := by
        intro rest h
        rw [readFraction]
        · exact fun tail heq => absurd rfl (h _ tail heq).2.1
        · exact fun tail heq => absurd rfl (h _ tail heq).2.2.1
        · exact fun tail heq => absurd rfl (h _ tail heq).2.2.2
      by_cases hdropped : (pushDigits 0 digits).2 = 0
      · refine ⟨some (wholeNumber negative (pushDigits 0 digits).1), fun rest hrest => ?_⟩
        rw [ofChars_nil, List.nil_append, hread rest hrest, if_pos hdropped]
        rfl
      · refine ⟨v?, fun rest hrest => ?_⟩
        rw [← hv rest hrest, ofChars_nil, List.nil_append, hread rest hrest, if_neg hdropped]

/-- **The same is made of a numeral wherever it stands**, its sign having been read. -/
theorem exists_yields_unsigned (f : Figures) :
    ∃ v?, Yields (readUnsigned negative) f.unsigned v? := by
  obtain ⟨v?, hv⟩ := exists_yields_fraction negative f f.whole.chars
  refine ⟨v?, fun rest hrest => ?_⟩
  have hspan := f.whole.spanDigits (endsDigits_fraction f hrest)
  rw [← hv rest hrest, Figures.unsigned, ofChars_append, List.append_assoc,
    readUnsigned_of_span negative hspan f.whole.ne_nil f.shortest]

end Numerals

/-! ### Lists -/

section Lists

variable {α : Type} {item : Source → Except ReadError (α × Source)}
  {out : List Char → Option α}

theorem readMoreOf_gap (fuel : Nat) (gap : Gap) (rest : Source) :
    readMoreOf item fuel (ofChars gap.chars ++ rest) = readMoreOf item fuel rest := by
  cases fuel with
  | zero => rfl
  | succ fuel => rw [readMoreOf, readMoreOf, skipBlanks_gap]

/-- An item of a list, and those behind it, which are given a bound of their own. -/
theorem toOption_readItem (bound : Source → Nat) {i : Item} {items : List Item}
    (h : Yields item i.body (out i.body)) {rest rest' : Source} (hrest : EndsNumeral rest)
    (hmore : (readMoreOf item (bound (ofChars i.trail.chars ++ rest)) rest).toOption =
      (items.mapM fun i => out i.body).map (·, rest')) :
    (do
      let (v, rest) ← item (ofChars i.body ++ (ofChars i.trail.chars ++ rest))
      let (vs, rest) ← readMoreOf item (bound rest) rest
      return (v :: vs, rest)).toOption =
      ((i :: items).mapM fun i => out i.body).map (·, rest') := by
  rw [h.bind (endsNumeral_gap i.trail hrest), List.mapM_cons]
  simp only [readMoreOf_gap, toOption_bind, hmore]
  cases out i.body with
  | none => rfl
  | some v => cases items.mapM fun i => out i.body <;> rfl

theorem readMoreOf_behindCommas {items : List Item}
    (h : ∀ i ∈ items, Yields item i.body (out i.body)) (hopens : ∀ i ∈ items, Opens i.body)
    {fuel : Nat} (hfuel : items.length < fuel) (rest : Source) :
    (readMoreOf item fuel
        (ofChars (behindCommas (items.map Item.chars)) ++ some ']' :: rest)).toOption =
      (items.mapM fun i => out i.body).map (·, rest) := by
  induction items generalizing fuel with
  | nil =>
    obtain ⟨fuel, rfl⟩ := Nat.exists_eq_add_one_of_ne_zero (n := fuel) (by simp at hfuel; omega)
    rw [List.map_nil, behindCommas, List.flatMap_nil, ofChars_nil, List.nil_append, readMoreOf,
      skipBlanks_cons (c := ']') (by decide)]
    rfl
  | cons i items ih =>
    rw [List.forall_mem_cons] at h hopens
    rw [List.length_cons] at hfuel
    obtain ⟨fuel, rfl⟩ := Nat.exists_eq_add_one_of_ne_zero (n := fuel) (by omega)
    have hafter := endsNumeral_behindCommas (items.map Item.chars) (c := ']') (by decide) rest
    rw [List.map_cons, ofChars_behindCommas_cons, ofChars_item, readMoreOf,
      skipBlanks_cons (c := ',') (by decide)]
    simp only [skipBlanks_gap, skipBlanks_of_opens hopens.1]
    split
    · next heq => exact absurd heq (hopens.1.ofChars_ne _ _)
    · exact toOption_readItem (fun _ => fuel) h.1 hafter (@ih h.2 hopens.2 fuel (by omega))

/-- **A list whose items are read one by one.** -/
theorem yields_list (gap : Gap) {items : List Item}
    (h : ∀ i ∈ items, Yields item i.body (out i.body)) (hopens : ∀ i ∈ items, Opens i.body) :
    Yields (readListOf item) (listText gap items) (items.mapM fun i => out i.body) := by
  intro rest _
  rw [ofChars_listText, readListOf, skipBlanks_cons (c := '[') (by decide)]
  simp only [skipBlanks_gap]
  cases items with
  | nil => rfl
  | cons i items =>
    rw [List.forall_mem_cons] at h hopens
    have hafter := endsNumeral_behindCommas (items.map Item.chars) (c := ']') (by decide) rest
    -- there are calls enough, for each item but the first has a comma before it
    have hlength := length_le_behindCommas (items.map Item.chars)
    rw [List.length_map] at hlength
    rw [List.map_cons, ofChars_separated_cons, ofChars_item, skipBlanks_gap,
      skipBlanks_of_opens hopens.1]
    split
    · next heq => exact absurd heq (hopens.1.ofChars_ne_nil _)
    · next heq => exact absurd heq (hopens.1.ofChars_ne _ _)
    · refine toOption_readItem callBound h.1 hafter (readMoreOf_behindCommas h.2 hopens.2 ?_ rest)
      simp [callBound]
      omega

end Lists

end Json

end EventJournal
