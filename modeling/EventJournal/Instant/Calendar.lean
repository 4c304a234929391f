/-!
# The calendar

Dates of the Gregorian calendar, extended to all years, and the count of days from
1970-01-01. The count runs over years that begin in March, so that the day a leap year adds
is the last of its year; eras of four hundred years have equally many days.
-/

namespace EventJournal

/-- Whether a year has a twenty-ninth of February. -/
def isLeapYear (year : Int) : Bool :=
  year % 4 == 0 && (year % 100 != 0 || year % 400 == 0)

/-- The number of days of a month, zero for a number that is no month. -/
def daysInMonth (year : Int) : Nat → Nat
  | 2 => if isLeapYear year then 29 else 28
  | 4 | 6 | 9 | 11 => 30
  | 1 | 3 | 5 | 7 | 8 | 10 | 12 => 31
  | _ => 0

/-- A date: a year, a month of the year, and a day of the month. -/
structure Date where
  /-- The year; the year before year one is year zero. -/
  year : Int
  /-- The month, from one to twelve. -/
  month : Nat
  /-- The day of the month, from one. -/
  day : Nat
  /-- The day is one of the month's. -/
  isDay : 1 ≤ day ∧ day ≤ daysInMonth year month
  deriving DecidableEq

namespace Date

/-- The date of a year, a month and a day, if there is one. -/
def ofCivil? (year : Int) (month day : Nat) : Option Date :=
  if h : 1 ≤ day ∧ day ≤ daysInMonth year month then some ⟨year, month, day, h⟩ else none

/-- The first of January 1970. -/
def epoch : Date := ⟨1970, 1, 1, by decide⟩

instance : Inhabited Date := ⟨epoch⟩

/-- The number of days from 1970-01-01 to a date. -/
def toDays (d : Date) : Int :=
  let year := if d.month ≤ 2 then d.year - 1 else d.year
  let era := year / 400
  let yearOfEra := year % 400
  let monthFromMarch : Int := (d.month + 9) % 12
  let dayOfYear := (153 * monthFromMarch + 2) / 5 + d.day - 1
  let dayOfEra := yearOfEra * 365 + yearOfEra / 4 - yearOfEra / 100 + dayOfYear
  era * 146097 + dayOfEra - 719468

/-- The date that lies a number of days after 1970-01-01. -/
def ofDays (days : Int) : Date :=
  let fromMarch := days + 719468
  let era := fromMarch / 146097
  let dayOfEra := fromMarch % 146097
  let yearOfEra := (dayOfEra - dayOfEra / 1460 + dayOfEra / 36524 - dayOfEra / 146096) / 365
  let dayOfYear := dayOfEra - (365 * yearOfEra + yearOfEra / 4 - yearOfEra / 100)
  let monthFromMarch := (5 * dayOfYear + 2) / 153
  let day := dayOfYear - (153 * monthFromMarch + 2) / 5 + 1
  let month := if monthFromMarch < 10 then monthFromMarch + 3 else monthFromMarch - 9
  let year := yearOfEra + era * 400 + (if month ≤ 2 then 1 else 0)
  (ofCivil? year month.toNat day.toNat).getD epoch

/-- The date a number of days later, or earlier if the number is negative. -/
def addDays (d : Date) (days : Int) : Date :=
  if days = 0 then d else ofDays (d.toDays + days)

end Date

/-- A moment of universal time: a date, a second of the day, and a part of the second. In a
leap second the part runs on past one second, so that the second it belongs to is the one
before. -/
structure Instant where
  /-- The date. -/
  date : Date
  /-- The second of the day. -/
  second : Nat
  /-- The nanoseconds since the second began. -/
  nano : Nat
  /-- A day has 86400 seconds. -/
  second_lt : second < 86400
  /-- A second has 10⁹ nanoseconds, twice as many if a leap second follows it. -/
  nano_lt : nano < 2000000000
  deriving DecidableEq

namespace Instant

/-- Midnight of the first of January 1970. -/
def epoch : Instant := ⟨Date.epoch, 0, 0, by decide, by decide⟩

instance : Inhabited Instant := ⟨epoch⟩

/-- The moment a number of milliseconds after midnight of 1970-01-01. -/
def ofMillis (ms : Int) : Instant where
  date := Date.ofDays (ms / 86400000)
  second := (ms % 86400000).toNat / 1000
  nano := (ms % 86400000).toNat % 1000 * 1000000
  second_lt := by omega
  nano_lt := by omega

/-- The whole milliseconds from midnight of 1970-01-01 to a moment. -/
def toMillis (i : Instant) : Int :=
  i.date.toDays * 86400000 + i.second * 1000 + i.nano / 1000000

/-- The moment a number of seconds later, or earlier if the number is negative. -/
def addSeconds (i : Instant) (seconds : Int) : Instant where
  date := i.date.addDays ((i.second + seconds) / 86400)
  second := ((i.second + seconds) % 86400).toNat
  nano := i.nano
  second_lt := by omega
  nano_lt := i.nano_lt

end Instant

end EventJournal
