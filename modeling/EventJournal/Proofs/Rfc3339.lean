import EventJournal.Instant.Rfc3339
import EventJournal.Proofs.Text.Digits

/-!
# Moments that are read back

A moment of a year of four digits comes back from its written form, to the nanosecond, if it is
not in a leap second (`EventJournal.Instant.parse?_render`). Every part is written in a fixed number
of digits, so that the reader, which would make do with fewer, takes all of them
(`EventJournal.Instant.readNumber_append`); the fraction is the one part whose length varies, and
the digits it leaves out are the zeros that the reader puts back.
-/

namespace EventJournal

namespace Instant

/-- **A moment that is written in the common form**: its year has at most four digits, and it is
not in a leap second. -/
def IsCommon (i : Instant) : Prop :=
  0 ≤ i.date.year ∧ i.date.year ≤ 9999 ∧ i.nano < 1000000000

instance : DecidablePred IsCommon := fun i =>
  inferInstanceAs (Decidable (_ ∧ _ ∧ i.nano < 1000000000))

/-! ### Digits at the front -/

theorem isBlank_of_isDigit {c : Char} (h : c.isDigit) : Text.isBlank c = false := by
  obtain ⟨hlow, hhigh⟩ := Text.toNat_of_isDigit h
  simp [Text.isBlank, Text.Range.covers, Text.blankRanges]
  omega

theorem dropBlanks_cons {c : Char} (h : Text.isBlank c = false) (cs : List Char) :
    Text.dropBlanks (c :: cs) = c :: cs := by
  rw [Text.dropBlanks, List.dropWhile_cons_of_neg (by rw [h]; exact Bool.false_ne_true)]

theorem exists_padded_eq (width n : Nat) :
    ∃ c cs, Text.padded width n = c :: cs ∧ c.isDigit := by
  cases heq : Text.padded width n with
  | nil => exact absurd (List.append_eq_nil_iff.mp heq).2 (Text.decimal_ne_nil n)
  | cons c cs =>
    have hmem : c ∈ Text.padded width n := heq ▸ List.mem_cons_self
    exact ⟨c, cs, rfl, Text.isDigit_of_mem_padded hmem⟩

theorem dropBlanks_padded_append (width n : Nat) (rest : List Char) :
    Text.dropBlanks (Text.padded width n ++ rest) = Text.padded width n ++ rest := by
  obtain ⟨c, cs, heq, hdigit⟩ := exists_padded_eq width n
  rw [heq]
  exact dropBlanks_cons (isBlank_of_isDigit hdigit) _

/-- **A number is read to its end**, if it is as long as may be or no digit follows. -/
theorem readNumber_append {width : Nat} {digits : List Char} (hne : digits ≠ [])
    (hdigits : ∀ c ∈ digits, c.isDigit) (hwidth : digits.length ≤ width) {rest : List Char}
    (hrest : (rest.take (width - digits.length)).takeWhile Char.isDigit = []) :
    readNumber width (digits ++ rest) = some (Text.ofDigits digits, rest) := by
  have htake : ((digits ++ rest).take width).takeWhile Char.isDigit = digits := by
    rw [List.take_append, List.take_of_length_le hwidth, List.takeWhile_append_of_pos hdigits,
      hrest, List.append_nil]
  have hempty : digits.isEmpty = false := by simpa using hne
  simp only [readNumber, htake, hempty, Bool.false_eq_true, if_false, List.drop_left]

theorem readNumber_padded {places width n : Nat} (hpos : 0 < places) (hle : places ≤ width)
    (hn : n < 10 ^ places) {rest : List Char}
    (hrest : (rest.take (width - places)).takeWhile Char.isDigit = []) :
    readNumber width (Text.padded places n ++ rest) = some (n, rest) := by
  have hlength := Text.length_padded hpos hn
  have hne : Text.padded places n ≠ [] := List.ne_nil_of_length_pos (by omega)
  rw [← hlength] at hrest hle
  rw [readNumber_append hne (fun _ => Text.isDigit_of_mem_padded) hle hrest, Text.ofDigits_padded]

/-! ### The parts -/

theorem readPart_padded {n : Nat} (hn : n < 100) (rest : List Char) :
    readPart (Text.padded 2 n ++ rest) = some (n, rest) := by
  rw [readPart, dropBlanks_padded_append, readNumber_padded (by decide) (by decide) hn rfl]

theorem readMark_cons {c : Char} (h : Text.isBlank c = false) (rest : List Char) :
    readMark c (c :: rest) = some rest := by
  simp only [readMark, dropBlanks_cons h, if_true]

theorem readYear_padded {n : Nat} (hn : n < 10000) (rest : List Char) :
    readYear (Text.padded 4 n ++ rest) = some ((n : Int), rest) := by
  have hread : readNumber 4 (Text.padded 4 n ++ rest) = some (n, rest) :=
    readNumber_padded (by decide) (by decide) hn rfl
  obtain ⟨c, cs, heq, hdigit⟩ := exists_padded_eq 4 n
  rw [readYear, dropBlanks_padded_append]
  rw [heq, List.cons_append] at hread ⊢
  split
  · next h =>
    rw [(List.cons.inj h).1] at hdigit
    exact absurd hdigit (by decide)
  · next h =>
    rw [(List.cons.inj h).1] at hdigit
    exact absurd hdigit (by decide)
  · rw [hread, Option.map_some]

/-- The digits behind the point, and the zeros that were left out. -/
theorem readFraction_padded {places n : Nat} (hpos : 0 < places) (hle : places ≤ 9)
    (hn : n < 10 ^ places) :
    readFraction ('.' :: Text.padded places n ++ ['Z']) = some (n * 10 ^ (9 - places), ['Z']) := by
  have hread : readNumber 9 (Text.padded places n ++ ['Z']) = some (n, ['Z']) := by
    refine readNumber_padded hpos hle hn ?_
    cases 9 - places <;> rfl
  have hplaces : (Text.padded places n ++ ['Z']).length - ['Z'].length = places := by
    rw [List.length_append, Nat.add_sub_cancel, Text.length_padded hpos hn]
  simp only [List.cons_append, readFraction, hread, Option.bind_eq_bind, Option.bind_some,
    hplaces]
  rfl

theorem readFraction_renderFraction {nano : Nat} (h : nano < 1000000000) :
    readFraction (renderFraction nano ++ ['Z']) = some (nano, ['Z']) := by
  rw [renderFraction]
  split
  · next hzero => rw [hzero]; rfl
  split
  · next hmod =>
    rw [readFraction_padded (by decide) (by decide) (by omega)]
    have hnano : nano / 1000000 * 10 ^ (9 - 3) = nano := by omega
    rw [hnano]
  split
  · next hmod =>
    rw [readFraction_padded (by decide) (by decide) (by omega)]
    have hnano : nano / 1000 * 10 ^ (9 - 6) = nano := by omega
    rw [hnano]
  · rw [readFraction_padded (by decide) (by decide) h, Nat.sub_self, Nat.pow_zero, Nat.mul_one]

/-! ### The moment -/

theorem month_lt (d : Date) : d.month < 100 := by
  have hday := Nat.le_trans d.isDay.1 d.isDay.2
  unfold daysInMonth at hday
  split at hday <;> omega

theorem day_lt (d : Date) : d.day < 100 := by
  have hday := d.isDay.2
  unfold daysInMonth at hday
  split at hday
  · split at hday <;> omega
  all_goals omega

theorem addSeconds_zero (i : Instant) : i.addSeconds 0 = i := by
  have hday : ((i.second : Int) + 0) / 86400 = 0 := by
    have hlt := i.second_lt
    omega
  have hsecond : (((i.second : Int) + 0) % 86400).toNat = i.second := by
    have hlt := i.second_lt
    omega
  simp only [addSeconds, hday, hsecond, Date.addDays, if_true]

/-- The time of a place that keeps universal time. -/
theorem ofLocal?_zero {i : Instant} (h : i.IsCommon) :
    ofLocal? i.date (i.second / 3600) (i.second / 60 % 60) (i.second % 60) i.nano 0 = some i := by
  obtain ⟨hlow, hhigh, hnano⟩ := h
  have hlt := i.second_lt
  have hyear : isYear i.date.year = true := by
    rw [isYear, Bool.and_eq_true, decide_eq_true_eq, decide_eq_true_eq]
    omega
  have hsecond : i.second / 3600 * 3600 + i.second / 60 % 60 * 60 + min (i.second % 60) 59 =
      i.second := by
    omega
  have hnotLeap : i.second % 60 ≠ 60 := by omega
  rw [ofLocal?, dif_pos ⟨by omega, by omega, by omega, hnano, by decide, hyear⟩]
  simp only [hsecond, if_neg hnotLeap, Nat.add_zero, Int.neg_zero, addSeconds_zero, hyear, if_true]

theorem readDate_padded {year month day : Nat} (hyear : year < 10000) (hmonth : month < 100)
    (hday : day < 100) (rest : List Char) :
    readDate (Text.padded 4 year ++ '-' :: (Text.padded 2 month ++
      '-' :: (Text.padded 2 day ++ rest))) = some ((year : Int), month, day, rest) := by
  rw [readDate, readYear_padded hyear]
  simp only [Option.bind_eq_bind, Option.bind_some, readMark_cons (c := '-') (by decide),
    readPart_padded hmonth, readPart_padded hday]
  rfl

theorem readTime_padded {hour minute second nano : Nat} (hhour : hour < 100)
    (hminute : minute < 100) (hsecond : second < 100) (hnano : nano < 1000000000) :
    readTime (Text.padded 2 hour ++ ':' :: (Text.padded 2 minute ++ ':' :: (Text.padded 2 second ++
      (renderFraction nano ++ ['Z'])))) = some (hour, minute, second, nano, ['Z']) := by
  rw [readTime, readPart_padded hhour]
  simp only [Option.bind_eq_bind, Option.bind_some, readMark_cons (c := ':') (by decide),
    readPart_padded hminute, readPart_padded hsecond, readFraction_renderFraction hnano]
  rfl

/-- **A moment comes back from its written form.** -/
theorem parse?_render {i : Instant} (h : i.IsCommon) : parse? i.render = some i := by
  obtain ⟨hlow, hhigh, hnano⟩ := h
  have hlt := i.second_lt
  have hwhole : i.second % 60 + i.nano / 1000000000 = i.second % 60 := by omega
  have hpart : i.nano % 1000000000 = i.nano := Nat.mod_eq_of_lt hnano
  have hyear : ((i.date.year.toNat : Nat) : Int) = i.date.year := Int.toNat_of_nonneg hlow
  have hdate : Date.ofCivil? i.date.year i.date.month i.date.day = some i.date := by
    rw [Date.ofCivil?, dif_pos i.date.isDay]
  have hbreak : ∀ rest, readBreak ('T' :: rest) = some rest := fun _ => rfl
  have hzone : readOffset (Text.dropBlanks ['Z']) = some (0, []) := rfl
  have hend : (Text.dropBlanks []).isEmpty = true := rfl
  rw [render, renderYear, if_pos ⟨hlow, hhigh⟩, hwhole, hpart]
  simp only [List.append_assoc, List.cons_append, parse?]
  -- the reader goes part by part, and each leaves the parts behind it
  rw [readDate_padded (by omega) (month_lt _) (day_lt _)]
  simp only [Option.bind_eq_bind, Option.bind_some, hbreak]
  rw [readTime_padded (by omega) (by omega) (by omega) hnano]
  simp only [Option.bind_some, hzone, hyear, hdate, hend, if_true,
    ofLocal?_zero ⟨hlow, hhigh, hnano⟩]

end Instant

end EventJournal
