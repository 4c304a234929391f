import EventJournal.Proofs.Json.Grammar

/-!
# Values that are passed over

The reader that goes over a value without keeping it goes over every well-formed value, nested to
any depth, and stops right behind it (`EventJournal.Json.WellFormed.passes`). Nothing is asked of a
value for this: half of a surrogate pair will do, and a numeral of any size.

The bound on the number of calls is kept with the length of the text, as for the values that are
read back: a call that passes over a character leaves twice the length of the rest.
-/

namespace EventJournal

namespace Json

open Text (Source)

/-! ### Blanks -/

@[simp] theorem skipBlanks_gap (gap : Gap) (rest : Source) :
    skipBlanks (ofChars gap.chars ++ rest) = skipBlanks rest := by
  obtain ⟨chars, hblank⟩ := gap
  dsimp only
  induction chars with
  | nil => rfl
  | cons c chars ih =>
    rw [List.forall_mem_cons] at hblank
    rw [ofChars_cons, List.cons_append, ← ih hblank.2]
    have hc := hblank.1
    simp only [List.mem_cons, List.not_mem_nil, or_false] at hc
    rcases hc with rfl | rfl | rfl | rfl <;> rfl

theorem skipBlanks_of_opens {cs : List Char} (h : Opens cs) (rest : Source) :
    skipBlanks (ofChars cs ++ rest) = ofChars cs ++ rest := by
  obtain ⟨c, ds, rfl, hsolid, -⟩ := h
  exact skipBlanks_cons hsolid _

theorem Opens.ofChars_ne_nil {cs : List Char} (h : Opens cs) (rest : Source) :
    ofChars cs ++ rest ≠ [] := by
  obtain ⟨c, ds, rfl, -⟩ := h
  exact List.cons_ne_nil _ _

theorem Opens.eq_cons {cs : List Char} (h : Opens cs) {rest tail : Source} {c : Char}
    (heq : ofChars cs ++ rest = some c :: tail) : ∃ ds, cs = c :: ds := by
  obtain ⟨c', ds, rfl, -⟩ := h
  exact ⟨ds, congrArg (· :: ds) (Option.some.inj (List.cons.inj heq).1)⟩

/-- A value does not start with the end of a list. -/
theorem Opens.ofChars_ne {cs : List Char} (h : Opens cs) (rest tail : Source) :
    ofChars cs ++ rest ≠ some ']' :: tail := by
  obtain ⟨c, ds, rfl, -, hc⟩ := h
  exact fun heq => hc (Option.some.inj (List.cons.inj heq).1)

/-- Blanks end a numeral as well. -/
theorem endsNumeral_gap (gap : Gap) {rest : Source} (h : EndsNumeral rest) :
    EndsNumeral (ofChars gap.chars ++ rest) := by
  obtain ⟨chars, hblank⟩ := gap
  cases chars with
  | nil => exact h
  | cons c chars =>
    refine endsNumeral_cons ?_ _
    have hc := hblank c List.mem_cons_self
    simp only [List.mem_cons, List.not_mem_nil, or_false] at hc
    rcases hc with rfl | rfl | rfl | rfl <;> decide

theorem endsNumeral_behindCommas (parts : List (List Char)) {c : Char}
    (h : c.isDigit = false ∧ c ≠ '.' ∧ c ≠ 'e' ∧ c ≠ 'E') (rest : Source) :
    EndsNumeral (ofChars (behindCommas parts) ++ some c :: rest) := by
  cases parts with
  | nil => exact endsNumeral_cons h rest
  | cons part parts => exact endsNumeral_cons (by decide) _

/-! ### Numerals -/

section Numerals

variable {source rest : Source} {digits : List Char}

theorem skipExponent_of_span (hspan : spanDigits (skipSign source) = (digits, rest))
    (hne : digits ≠ []) : skipExponent source = .ok rest := by
  rw [skipExponent, hspan]
  split
  · next heq => exact absurd (congrArg Prod.fst heq) hne
  · next heq =>
    cases heq
    rfl

theorem skipDecimals_of_span (hspan : spanDigits source = (digits, rest)) (hne : digits ≠ []) :
    skipDecimals source = skipPower rest := by
  rw [skipDecimals, hspan]
  split
  · next heq => exact absurd (congrArg Prod.fst heq) hne
  · next heq =>
    cases heq
    rfl

/-- What is passed over behind the whole digits of a numeral. -/
def skipFraction : Source → Except ReadError Source
  | some '.' :: rest => skipDecimals rest
  | rest => skipPower rest

theorem skipUnsigned_of_span (hspan : spanDigits source = (digits, rest)) (hne : digits ≠ [])
    (hshortest : ∀ cs, digits = '0' :: cs → cs = []) :
    skipUnsigned source = skipFraction rest := by
  rw [skipUnsigned, hspan]
  split
  · next heq => exact absurd (congrArg Prod.fst heq) hne
  · next heq => cases hshortest _ (congrArg Prod.fst heq)
  · next heq =>
    cases heq
    rfl
  · next hdot heq =>
    cases heq
    rw [skipFraction]
    exact fun rest heq => hdot rest heq

end Numerals

theorem Digits.spanDigits (d : Digits) {rest : Source} (h : EndsDigits rest) :
    Json.spanDigits (ofChars d.chars ++ rest) = (d.chars, rest) :=
  spanDigits_ofChars d.isDigit h

theorem Digits.ofChars_ne (d : Digits) {c : Char} (h : c.isDigit = false) (rest tail : Source) :
    ofChars d.chars ++ rest ≠ some c :: tail := by
  obtain ⟨b, cs, hchars⟩ := List.exists_cons_of_ne_nil d.ne_nil
  have hb := d.isDigit b (hchars ▸ List.mem_cons_self)
  rw [hchars, ofChars_cons, List.cons_append]
  rintro heq
  obtain rfl := Option.some.inj (List.cons.inj heq).1
  rw [h] at hb
  exact Bool.false_ne_true hb

theorem skipSign_digits (d : Digits) (rest : Source) :
    skipSign (ofChars d.chars ++ rest) = ofChars d.chars ++ rest := by
  rw [skipSign]
  · exact fun tail heq => d.ofChars_ne (by decide) rest tail heq
  · exact fun tail heq => d.ofChars_ne (by decide) rest tail heq

theorem Exponent.skipPower (e : Exponent) {rest : Source} (h : EndsNumeral rest) :
    Json.skipPower (ofChars e.chars ++ rest) = .ok rest := by
  have hsign : skipSign (ofChars (e.sign ++ e.digits.chars) ++ rest) =
      ofChars e.digits.chars ++ rest := by
    rcases e.isSign with hsign | hsign | hsign
    · rw [hsign, List.nil_append, skipSign_digits]
    · rw [hsign]
      rfl
    · rw [hsign]
      rfl
  have hskip : skipExponent (ofChars (e.sign ++ e.digits.chars) ++ rest) = .ok rest := by
    refine skipExponent_of_span ?_ e.digits.ne_nil
    rw [hsign, e.digits.spanDigits h.endsDigits]
  rw [Exponent.chars, List.cons_append, ofChars_cons, List.cons_append]
  rcases e.isMark with hmark | hmark
  · rw [hmark]
    exact hskip
  · rw [hmark]
    exact hskip

theorem skipPower_exponent (e : Option Exponent) {rest : Source} (h : EndsNumeral rest) :
    skipPower (ofChars (e.elim [] Exponent.chars) ++ rest) = .ok rest := by
  cases e with
  | none =>
    rw [Option.elim_none, ofChars_nil, List.nil_append, skipPower]
    · exact fun tail heq => absurd rfl (h _ tail heq).2.2.1
    · exact fun tail heq => absurd rfl (h _ tail heq).2.2.2
  | some e => exact e.skipPower h

theorem endsDigits_exponent (e : Option Exponent) {rest : Source} (h : EndsNumeral rest) :
    EndsDigits (ofChars (e.elim [] Exponent.chars) ++ rest) := by
  cases e with
  | none => exact h.endsDigits
  | some e =>
    refine endsDigits_cons ?_ _
    rcases e.isMark with hmark | hmark <;> rw [hmark] <;> decide

theorem Figures.skipFraction (f : Figures) {rest : Source} (h : EndsNumeral rest) :
    Json.skipFraction (ofChars f.fraction ++ rest) = .ok rest := by
  rw [Figures.fraction, ofChars_append, List.append_assoc]
  cases f.decimals with
  | none =>
    rw [Option.elim_none, ofChars_nil, List.nil_append, Json.skipFraction]
    · exact skipPower_exponent f.exponent h
    -- neither an exponent nor what ends a numeral begins with a point
    · cases f.exponent with
      | none => exact fun tail heq => absurd rfl (h _ tail heq).2.1
      | some e =>
        rintro tail heq
        have hdot : e.mark = '.' := Option.some.inj (List.cons.inj heq).1
        rcases e.isMark with hmark | hmark <;> rw [hmark] at hdot <;> cases hdot
  | some d =>
    rw [Option.elim_some, ofChars_cons, List.cons_append, Json.skipFraction,
      skipDecimals_of_span (d.spanDigits (endsDigits_exponent f.exponent h)) d.ne_nil,
      skipPower_exponent f.exponent h]

theorem endsDigits_fraction (f : Figures) {rest : Source} (h : EndsNumeral rest) :
    EndsDigits (ofChars f.fraction ++ rest) := by
  rw [Figures.fraction, ofChars_append, List.append_assoc]
  cases f.decimals with
  | none => exact endsDigits_exponent f.exponent h
  | some d => exact endsDigits_cons (by decide) _

/-- **A numeral is passed over.** -/
theorem Figures.skipUnsigned (f : Figures) {rest : Source} (h : EndsNumeral rest) :
    Json.skipUnsigned (ofChars f.unsigned ++ rest) = .ok rest := by
  have hspan := f.whole.spanDigits (endsDigits_fraction f h)
  rw [Figures.unsigned, ofChars_append, List.append_assoc,
    skipUnsigned_of_span hspan f.whole.ne_nil f.shortest, f.skipFraction h]

/-! ### Quoted texts -/

/-- The rest of an escape is passed over. -/
theorem skipText_append (skipped : List Char) (rest : Source) :
    skipText skipped.length (ofChars skipped ++ rest) = skipText 0 rest := by
  induction skipped with
  | nil => rfl
  | cons c skipped ih =>
    rw [List.length_cons, ofChars_cons, List.cons_append, skipText]
    exact ih

theorem skipEscape_short {mark c : Char} (h : (mark, c) ∈ shortEscapes) (rest : Source) :
    skipEscape (some mark :: rest) = .ok 1 := by
  simp only [shortEscapes, List.mem_cons, List.not_mem_nil, or_false, Prod.mk.injEq] at h
  rcases h with ⟨rfl, -⟩ | ⟨rfl, -⟩ | ⟨rfl, -⟩ | ⟨rfl, -⟩ | ⟨rfl, -⟩ | ⟨rfl, -⟩ | ⟨rfl, -⟩ |
    ⟨rfl, -⟩ <;> rfl

theorem skipEscape_code {digits : List Char} {n : Nat}
    (h : digits.length = 4 ∧ Text.ofHexadecimal? digits = some n) (rest : Source) :
    skipEscape (some 'u' :: (ofChars digits ++ rest)) = .ok 5 := by
  rw [skipEscape, readHex_ofChars h.1 h.2]
  rfl

/-- **A quoted text is passed over**, its first quotation mark having been read. -/
theorem skipText_letters (letters : List Letter) (rest : Source) :
    skipText 0 (ofChars (letters.flatMap Letter.chars) ++ some '"' :: rest) = .ok rest := by
  have hsolidus : '\\' ≠ '"' := by decide
  induction letters with
  | nil => rfl
  | cons letter letters ih =>
    rw [List.flatMap_cons, ofChars_append, List.append_assoc]
    cases letter with
    | plain c hplain =>
      rw [Letter.chars, ofChars_cons, ofChars_nil, List.cons_append, List.nil_append, skipText]
      simp only [hplain.1, hplain.2.1, hplain.2.2, if_false, ih]
    | short mark c hshort =>
      rw [Letter.chars, ofChars_cons, ofChars_cons, ofChars_nil, List.cons_append,
        List.cons_append, List.nil_append, skipText]
      simp only [hsolidus, if_false, if_true, skipEscape_short hshort, bind_ok]
      exact ih
    | code digits n hcode =>
      rw [Letter.chars, ofChars_cons, ofChars_cons, List.cons_append, List.cons_append, skipText]
      -- the digits have been looked at, and are gone over once more
      have hskip := skipText_append ('u' :: digits)
      rw [List.length_cons, hcode.1, ofChars_cons] at hskip
      simp only [hsolidus, if_false, if_true, skipEscape_code hcode, bind_ok]
      exact (hskip _).trans ih

/-! ### Values -/

theorem Figures.unsigned_eq (f : Figures) : ∃ c cs, f.unsigned = c :: cs ∧ c.isDigit := by
  obtain ⟨c, cs, hcs⟩ := List.exists_cons_of_ne_nil f.whole.ne_nil
  refine ⟨c, cs ++ f.fraction, by rw [Figures.unsigned, hcs, List.cons_append], ?_⟩
  exact f.whole.isDigit c (hcs ▸ List.mem_cons_self)

theorem opens_of_isDigit {c : Char} (h : c.isDigit) (cs : List Char) : Opens (c :: cs) := by
  refine ⟨c, cs, rfl, solid_of_isDigit h, ?_⟩
  rintro rfl
  exact absurd h (by decide)

theorem Figures.chars_eq (f : Figures) :
    ∃ c cs, f.chars = c :: cs ∧ (c = '-' ∨ c.isDigit) := by
  obtain ⟨c, cs, heq, hdigit⟩ := f.unsigned_eq
  rw [Figures.chars]
  split
  · exact ⟨_, _, rfl, Or.inl rfl⟩
  · exact ⟨c, cs, heq, Or.inr hdigit⟩

theorem Figures.opens (f : Figures) : Opens f.chars := by
  obtain ⟨c, cs, heq, rfl | hdigit⟩ := f.chars_eq
  · exact ⟨_, _, heq, by decide⟩
  · rw [heq]
    exact opens_of_isDigit hdigit cs

theorem WellFormed.opens {cs : List Char} (h : WellFormed cs) : Opens cs := by
  cases h with
  | word hmem =>
    simp only [words, List.mem_cons, List.not_mem_nil, or_false] at hmem
    rcases hmem with rfl | rfl | rfl <;> exact ⟨_, _, rfl, by decide⟩
  | numeral f => exact f.opens
  | _ => exact ⟨_, _, rfl, by decide⟩

/-- **A value that is passed over** wherever it stands. -/
def Passes (cs : List Char) : Prop :=
  ∀ fuel rest, 2 * cs.length ≤ fuel → EndsNumeral rest →
    skipValue fuel (ofChars cs ++ rest) = .ok rest

/-- There is always a first call to pass over a value. -/
theorem passes_of_succ {cs : List Char} (hne : cs ≠ [])
    (h : ∀ fuel rest, 2 * cs.length ≤ fuel + 1 → EndsNumeral rest →
      skipValue (fuel + 1) (ofChars cs ++ rest) = .ok rest) : Passes cs := by
  intro fuel rest hfuel hrest
  have hpos := List.length_pos_iff.mpr hne
  obtain ⟨fuel, rfl⟩ := Nat.exists_eq_add_one_of_ne_zero (n := fuel) (by omega)
  exact h fuel rest hfuel hrest

theorem passes_word {cs : List Char} (h : cs ∈ words) : Passes cs := by
  simp only [words, List.mem_cons, List.not_mem_nil, or_false] at h
  rcases h with rfl | rfl | rfl <;>
    refine passes_of_succ (List.cons_ne_nil _ _) fun fuel rest _ _ => ?_
  · rw [nullText, ofChars_cons, List.cons_append, skipValue, skipBlanks_cons (by decide)]
    rfl
  · rw [ofChars_cons, List.cons_append, skipValue, skipBlanks_cons (by decide)]
    rfl
  · rw [ofChars_cons, List.cons_append, skipValue, skipBlanks_cons (by decide)]
    rfl

theorem skipValue_of_isDigit {c : Char} (h : c.isDigit) (rest : Source) (fuel : Nat) :
    skipValue (fuel + 1) (some c :: rest) = skipUnsigned (some c :: rest) := by
  rw [skipValue, skipBlanks_cons (solid_of_isDigit h)]
  split
  case h_9 =>
    next heq =>
    cases heq
    rw [if_pos h]
  all_goals simp_all

theorem passes_numeral (f : Figures) : Passes f.chars := by
  refine passes_of_succ f.opens.ne_nil fun fuel rest _ hrest => ?_
  have hskip := f.skipUnsigned hrest
  obtain ⟨c, cs, heq, hdigit⟩ := f.unsigned_eq
  rw [Figures.chars]
  split
  · rw [ofChars_cons, List.cons_append, skipValue, skipBlanks_cons (c := '-') (by decide)]
    exact hskip
  · rw [heq, ofChars_cons, List.cons_append] at hskip ⊢
    rw [skipValue_of_isDigit hdigit]
    exact hskip

theorem passes_quotation (letters : List Letter) : Passes (quotation letters) := by
  refine passes_of_succ (List.cons_ne_nil _ _) fun fuel rest _ _ => ?_
  rw [quotation, List.cons_append, ofChars_cons, List.cons_append, skipValue,
    skipBlanks_cons (c := '"') (by decide)]
  simp only [ofChars_append, ofChars_cons, ofChars_nil, List.append_assoc, List.cons_append,
    List.nil_append, skipText_letters]

/-! ### Lists and objects -/

theorem skipValue_gap (fuel : Nat) (gap : Gap) (rest : Source) :
    skipValue fuel (ofChars gap.chars ++ rest) = skipValue fuel rest := by
  cases fuel with
  | zero => rfl
  | succ fuel => rw [skipValue, skipValue, skipBlanks_gap]

theorem skipMoreItems_gap (fuel : Nat) (gap : Gap) (rest : Source) :
    skipMoreItems fuel (ofChars gap.chars ++ rest) = skipMoreItems fuel rest := by
  cases fuel with
  | zero => rfl
  | succ fuel => rw [skipMoreItems, skipMoreItems, skipBlanks_gap]

theorem skipMember_gap (fuel : Nat) (gap : Gap) (rest : Source) :
    skipMember fuel (ofChars gap.chars ++ rest) = skipMember fuel rest := by
  cases fuel with
  | zero => rfl
  | succ fuel => rw [skipMember, skipMember, skipBlanks_gap]

/-- A value in its place, whose first blanks need not be there. -/
theorem skipValue_item {i : Item} (h : Passes i.body) (fuel : Nat)
    (hfuel : 2 * i.body.length ≤ fuel) {rest : Source} (hrest : EndsNumeral rest) :
    skipValue fuel (ofChars i.body ++ (ofChars i.trail.chars ++ rest)) =
      .ok (ofChars i.trail.chars ++ rest) :=
  h fuel _ hfuel (endsNumeral_gap i.trail hrest)

theorem ofChars_item (i : Item) (rest : Source) :
    ofChars i.chars ++ rest =
      ofChars i.lead.chars ++ (ofChars i.body ++ (ofChars i.trail.chars ++ rest)) := by
  simp only [Item.chars, ofChars_append, List.append_assoc]

theorem ofChars_member (m : Member) (rest : Source) :
    ofChars m.chars ++ rest =
      ofChars m.lead.chars ++ some '"' :: (ofChars (m.name.flatMap Letter.chars) ++ some '"' ::
        (ofChars m.trail.chars ++ some ':' :: (ofChars m.value.chars ++ rest))) := by
  simp only [Member.chars, quotation, ofChars_append, ofChars_cons, List.append_assoc,
    List.cons_append, List.nil_append]

theorem ofChars_behindCommas_cons (part : List Char) (parts : List (List Char)) (rest : Source) :
    ofChars (behindCommas (part :: parts)) ++ rest =
      some ',' :: (ofChars part ++ (ofChars (behindCommas parts) ++ rest)) := by
  simp only [behindCommas, List.flatMap_cons, ofChars_append, ofChars_cons, List.cons_append,
    List.append_assoc]

theorem length_behindCommas_cons (part : List Char) (parts : List (List Char)) :
    (behindCommas (part :: parts)).length = part.length + 1 + (behindCommas parts).length := by
  simp only [behindCommas, List.flatMap_cons, List.length_append, List.length_cons]

theorem length_le_behindCommas (parts : List (List Char)) :
    parts.length ≤ (behindCommas parts).length := by
  induction parts with
  | nil => exact Nat.le_refl 0
  | cons part parts ih =>
    rw [length_behindCommas_cons, List.length_cons]
    omega

theorem length_item (i : Item) : i.body.length ≤ i.chars.length := by
  simp only [Item.chars, List.length_append]
  omega

theorem ofChars_separated_cons (part : List Char) (parts : List (List Char)) (rest : Source) :
    ofChars (separated (part :: parts)) ++ rest =
      ofChars part ++ (ofChars (behindCommas parts) ++ rest) := by
  rw [separated_cons, ofChars_append, List.append_assoc]

theorem ofChars_listText (gap : Gap) (items : List Item) (rest : Source) :
    ofChars (listText gap items) ++ rest =
      some '[' :: (ofChars gap.chars ++ (ofChars (separated (items.map Item.chars)) ++
        some ']' :: rest)) := by
  simp only [listText, ofChars_append, ofChars_cons, ofChars_nil, List.append_assoc,
    List.cons_append, List.nil_append]

theorem ofChars_objectText (gap : Gap) (members : List Member) (rest : Source) :
    ofChars (objectText gap members) ++ rest =
      some '\x7b' :: (ofChars gap.chars ++ (ofChars (separated (members.map Member.chars)) ++
        some '\x7d' :: rest)) := by
  simp only [objectText, ofChars_append, ofChars_cons, ofChars_nil, List.append_assoc,
    List.cons_append, List.nil_append]

theorem length_listText_cons (gap : Gap) (i : Item) (items : List Item) :
    (listText gap (i :: items)).length =
      gap.chars.length + i.chars.length + (behindCommas (items.map Item.chars)).length + 2 := by
  simp only [listText, List.map_cons, separated_cons, List.length_append, List.length_cons,
    List.length_nil]
  omega

theorem skipMoreItems_behindCommas {items : List Item} (h : ∀ i ∈ items, Passes i.body)
    {fuel : Nat} (hfuel : 2 * (behindCommas (items.map Item.chars)).length < fuel)
    (rest : Source) :
    skipMoreItems fuel (ofChars (behindCommas (items.map Item.chars)) ++ some ']' :: rest) =
      .ok rest := by
  induction items generalizing fuel with
  | nil =>
    obtain ⟨fuel, rfl⟩ := Nat.exists_eq_add_one_of_ne_zero (n := fuel) (by omega)
    rw [List.map_nil, behindCommas, List.flatMap_nil, ofChars_nil, List.nil_append, skipMoreItems,
      skipBlanks_cons (c := ']') (by decide)]
    rfl
  | cons i items ih =>
    rw [List.forall_mem_cons] at h
    rw [List.map_cons, length_behindCommas_cons] at hfuel
    obtain ⟨fuel, rfl⟩ := Nat.exists_eq_add_one_of_ne_zero (n := fuel) (by omega)
    have hlength := length_item i
    have hi := skipValue_item h.1 fuel (by omega)
      (endsNumeral_behindCommas (items.map Item.chars) (c := ']') (by decide) rest)
    have hitems := @ih h.2 fuel (by omega)
    rw [List.map_cons, ofChars_behindCommas_cons, ofChars_item, skipMoreItems,
      skipBlanks_cons (c := ',') (by decide)]
    simp only [skipValue_gap, hi, bind_ok, skipMoreItems_gap, hitems]

theorem passes_list (gap : Gap) {items : List Item} (h : ∀ i ∈ items, Passes i.body)
    (hopens : ∀ i ∈ items, Opens i.body) : Passes (listText gap items) := by
  refine passes_of_succ (List.cons_ne_nil _ _) fun fuel rest hfuel _ => ?_
  rw [ofChars_listText, skipValue, skipBlanks_cons (c := '[') (by decide)]
  simp only [skipBlanks_gap]
  cases items with
  | nil => rfl
  | cons i items =>
    rw [List.forall_mem_cons] at h hopens
    rw [length_listText_cons] at hfuel
    have hlength := length_item i
    have hi := skipValue_item h.1 fuel (by omega)
      (endsNumeral_behindCommas (items.map Item.chars) (c := ']') (by decide) rest)
    have hitems := @skipMoreItems_behindCommas _ h.2 fuel (by omega) rest
    rw [List.map_cons, ofChars_separated_cons, ofChars_item, skipBlanks_gap,
      skipBlanks_of_opens hopens.1]
    split
    · next heq => exact absurd heq (hopens.1.ofChars_ne _ _)
    · next heq => exact absurd heq (hopens.1.ofChars_ne_nil _)
    · simp only [hi, bind_ok, skipMoreItems_gap, hitems]

theorem readColon_gap (gap : Gap) (rest : Source) :
    readColon (ofChars gap.chars ++ some ':' :: rest) = .ok rest := by
  rw [readColon, skipBlanks_gap, skipBlanks_cons (c := ':') (by decide)]
  rfl

/-- What is done behind a member that was passed over. -/
def skipBehind (fuel : Nat) (source : Source) : Except ReadError Source :=
  match skipBlanks source with
  | [] => .error .truncated
  | some '\x7d' :: rest => .ok rest
  | some ',' :: rest => skipMember fuel rest
  | _ => .error .malformed

theorem skipBehind_gap (fuel : Nat) (gap : Gap) (source : Source) :
    skipBehind fuel (ofChars gap.chars ++ source) = skipBehind fuel source := by
  rw [skipBehind, skipBehind, skipBlanks_gap]

/-- One member is passed over, and what is done behind it. -/
theorem skipMember_succ {m : Member} (h : Passes m.value.body) {fuel : Nat}
    (hfuel : 2 * m.value.body.length ≤ fuel) {after : Source} (hafter : EndsNumeral after) :
    skipMember (fuel + 1) (ofChars m.chars ++ after) = skipBehind fuel after := by
  have hvalue := skipValue_item h _ hfuel hafter
  rw [ofChars_member, skipMember, skipBlanks_gap, skipBlanks_cons (c := '"') (by decide)]
  simp only [skipText_letters, bind_ok, readColon_gap, ofChars_item, skipValue_gap, hvalue]
  rw [← skipBehind_gap fuel m.value.trail after]
  rfl

theorem length_member (m : Member) : m.value.body.length < m.chars.length := by
  have hitem := length_item m.value
  simp only [Member.chars, List.length_append, List.length_cons]
  omega

theorem skipMember_members {m : Member} {members : List Member}
    (h : ∀ m' ∈ m :: members, Passes m'.value.body) {fuel : Nat}
    (hfuel : 2 * (m.chars.length + (behindCommas (members.map Member.chars)).length) ≤ fuel)
    (rest : Source) :
    skipMember fuel (ofChars m.chars ++ (ofChars (behindCommas (members.map Member.chars)) ++
      some '\x7d' :: rest)) = .ok rest := by
  induction members generalizing m fuel with
  | nil =>
    have hlength := length_member m
    obtain ⟨fuel, rfl⟩ := Nat.exists_eq_add_one_of_ne_zero (n := fuel) (by omega)
    rw [List.forall_mem_cons] at h
    rw [skipMember_succ h.1 (by omega) (endsNumeral_behindCommas _ (by decide) rest)]
    rfl
  | cons m' members ih =>
    have hlength := length_member m
    rw [List.map_cons, length_behindCommas_cons] at hfuel
    obtain ⟨fuel, rfl⟩ := Nat.exists_eq_add_one_of_ne_zero (n := fuel) (by omega)
    rw [List.forall_mem_cons] at h
    rw [skipMember_succ h.1 (by omega) (endsNumeral_behindCommas _ (by decide) rest),
      List.map_cons, ofChars_behindCommas_cons, skipBehind, skipBlanks_cons (c := ',') (by decide)]
    exact @ih m' h.2 fuel (by omega)

theorem passes_object (gap : Gap) {members : List Member}
    (h : ∀ m ∈ members, Passes m.value.body) : Passes (objectText gap members) := by
  refine passes_of_succ (List.cons_ne_nil _ _) fun fuel rest hfuel _ => ?_
  rw [ofChars_objectText, skipValue, skipBlanks_cons (c := '\x7b') (by decide)]
  simp only [skipBlanks_gap]
  cases members with
  | nil => rfl
  | cons m members =>
    have hlength : (objectText gap (m :: members)).length = gap.chars.length + m.chars.length +
        (behindCommas (members.map Member.chars)).length + 2 := by
      simp only [objectText, List.map_cons, separated_cons, List.length_append, List.length_cons,
        List.length_nil]
      omega
    have hmembers := @skipMember_members m members h fuel (by omega) rest
    rw [List.map_cons, ofChars_separated_cons]
    rw [ofChars_member, skipMember_gap] at hmembers
    rw [ofChars_member, skipBlanks_gap, skipBlanks_cons (c := '"') (by decide)]
    exact hmembers

/-- **A well-formed value is passed over**, wherever it stands. -/
theorem WellFormed.passes {cs : List Char} (h : WellFormed cs) : Passes cs := by
  induction h with
  | word hmem => exact passes_word hmem
  | numeral f => exact passes_numeral f
  | quoted letters => exact passes_quotation letters
  | list gap hitems ih => exact passes_list gap ih fun i hi => (hitems i hi).opens
  | object gap hmembers ih => exact passes_object gap ih

end Json

end EventJournal
