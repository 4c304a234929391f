import EventJournal.Instant.Calendar
import EventJournal.Text.Blank
import EventJournal.Text.Digits

/-!
# Moments as text

The profile of RFC 3339. Written, a moment stands in universal time, ends in `Z`, and has
none, three, six or nine digits after the seconds, the fewest that lose nothing; a year
outside 0 to 9999 is written with its sign.

The reader is laxer than the writer: any offset is read, a blank may stand for the `T` and
around the parts, single digits will do for all parts but the offset, and `UTC` will do for
the offset. The moment it answers is in universal time.
-/

namespace EventJournal

namespace Instant

/-! ### Writing -/

/-- A year in four places; with its sign if it is negative or needs more. -/
def renderYear (year : Int) : List Char :=
  if 0 ≤ year ∧ year ≤ 9999 then Text.padded 4 year.toNat
  else (if year < 0 then '-' else '+') :: Text.padded 4 year.natAbs

/-- The fraction of a second, with its point, in the fewest groups of three digits. -/
def renderFraction (nano : Nat) : List Char :=
  if nano = 0 then []
  else if nano % 1000000 = 0 then '.' :: Text.padded 3 (nano / 1000000)
  else if nano % 1000 = 0 then '.' :: Text.padded 6 (nano / 1000)
  else '.' :: Text.padded 9 nano

/-- The written form of a moment. -/
def render (i : Instant) : List Char :=
  renderYear i.date.year ++ '-' :: Text.padded 2 i.date.month ++ '-' :: Text.padded 2 i.date.day
    ++ 'T' :: Text.padded 2 (i.second / 3600) ++ ':' :: Text.padded 2 (i.second / 60 % 60)
    ++ ':' :: Text.padded 2 (i.second % 60 + i.nano / 1000000000)
    ++ renderFraction (i.nano % 1000000000) ++ ['Z']

/-! ### Reading -/

/-- A number of at least one and at most `width` digits, and what follows it. -/
def readNumber (width : Nat) (cs : List Char) : Option (Nat × List Char) :=
  let digits := (cs.take width).takeWhile Char.isDigit
  if digits.isEmpty then none else some (Text.ofDigits digits, cs.drop digits.length)

/-- A number of at most two digits, blanks being allowed before it. -/
def readPart (cs : List Char) : Option (Nat × List Char) :=
  readNumber 2 (Text.dropBlanks cs)

/-- What follows the character `c`, blanks being allowed before it. -/
def readMark (c : Char) (cs : List Char) : Option (List Char) :=
  match Text.dropBlanks cs with
  | d :: rest => if d = c then some rest else none
  | [] => none

/-- A year of at most four digits, or of any number of digits after a sign. -/
def readYear (cs : List Char) : Option (Int × List Char) :=
  match Text.dropBlanks cs with
  | '-' :: rest => (readNumber rest.length rest).map fun (n, rest) => (-(n : Int), rest)
  | '+' :: rest => (readNumber rest.length rest).map fun (n, rest) => ((n : Int), rest)
  | cs => (readNumber 4 cs).map fun (n, rest) => ((n : Int), rest)

/-- The nanoseconds of a fraction, if a point begins one. Digits after the ninth are read
and count for nothing. -/
def readFraction : List Char → Option (Nat × List Char)
  | '.' :: rest => do
    let (n, after) ← readNumber 9 rest
    let places := rest.length - after.length
    return (n * Nat.pow 10 (9 - places), after.dropWhile Char.isDigit)
  | cs => some (0, cs)

/-- Two digits. -/
def readPair : List Char → Option (Nat × List Char)
  | a :: b :: rest =>
    if a.isDigit && b.isDigit then some (Text.ofDigits [a, b], rest) else none
  | _ => none

/-- The seconds that an offset lies ahead of universal time: `Z`, `UTC`, or a sign, two
digits of hours and two of minutes, with colons and blanks between them. -/
def readOffset (cs : List Char) : Option (Int × List Char) :=
  let signed (ahead : Bool) (cs : List Char) : Option (Int × List Char) := do
    let (hours, cs) ← readPair cs
    let (minutes, cs) ← readPair (cs.dropWhile fun c => c = ':' || Text.isBlank c)
    if minutes < 60 then
      let seconds : Int := hours * 3600 + minutes * 60
      return (if ahead then seconds else -seconds, cs)
    else none
  match cs with
  | 'Z' :: rest | 'z' :: rest => some (0, rest)
  | '+' :: rest => signed true rest
  | '-' :: rest | '−' :: rest => signed false rest
  | a :: b :: c :: rest =>
    if [a, b, c].map Char.toUpper = ['U', 'T', 'C'] then some (0, rest) else none
  | _ => none

/-- The years that a moment may lie in. -/
def isYear (year : Int) : Bool := -262143 ≤ year && year ≤ 262142

/-- A moment in universal time, from the date and the time of a place whose clocks are
`offset` seconds ahead. The second may be the sixtieth, which is a leap second. -/
def ofLocal? (date : Date) (hour minute second nano : Nat) (offset : Int) : Option Instant :=
  if h : hour < 24 ∧ minute < 60 ∧ second ≤ 60 ∧ nano < 1000000000
      ∧ offset.natAbs < 86400 ∧ isYear date.year then
    let there : Instant :=
      { date := date
        second := hour * 3600 + minute * 60 + min second 59
        nano := nano + (if second = 60 then 1000000000 else 0)
        second_lt := by omega
        nano_lt := by split <;> omega }
    let here := there.addSeconds (-offset)
    if isYear here.date.year then some here else none
  else none

/-- The year, the month and the day of a date. -/
def readDate (cs : List Char) : Option (Int × Nat × Nat × List Char) := do
  let (year, cs) ← readYear cs
  let cs ← readMark '-' cs
  let (month, cs) ← readPart cs
  let cs ← readMark '-' cs
  let (day, cs) ← readPart cs
  return (year, month, day, cs)

/-- What follows the mark between a date and a time. -/
def readBreak : List Char → Option (List Char)
  | 'T' :: rest | 't' :: rest | ' ' :: rest => some rest
  | _ => none

/-- The hour, the minute, the second and the nanosecond of a time. -/
def readTime (cs : List Char) : Option (Nat × Nat × Nat × Nat × List Char) := do
  let (hour, cs) ← readPart cs
  let cs ← readMark ':' cs
  let (minute, cs) ← readPart cs
  let cs ← readMark ':' cs
  let (second, cs) ← readPart cs
  let (nano, cs) ← readFraction cs
  return (hour, minute, second, nano, cs)

/-- A moment from its text. -/
def parse? (cs : List Char) : Option Instant := do
  let (year, month, day, cs) ← readDate cs
  let cs ← readBreak cs
  let (hour, minute, second, nano, cs) ← readTime cs
  let (offset, cs) ← readOffset (Text.dropBlanks cs)
  let date ← Date.ofCivil? year month day
  if (Text.dropBlanks cs).isEmpty then ofLocal? date hour minute second nano offset else none

end Instant

end EventJournal
