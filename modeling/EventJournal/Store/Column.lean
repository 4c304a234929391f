import EventJournal.Store.Basic

/-!
# Columns of signed numbers

A database keeps the store's numbers in columns of signed sixty-four bits, which hold half
of what the library counts in. Numbers that would not fit are refused before the database
is asked, and a few calls have an answer without it; `Call.offline?` is that answer.
-/

namespace EventJournal

namespace Column

/-- The greatest number that a column holds. -/
def maxValue : Nat := 0x7FFFFFFFFFFFFFFF

/-- The failure of the first number that does not fit its column. -/
def firstOver (columns : List (String × Nat)) : Option StoreError :=
  (columns.find? fun c => maxValue < c.2).map fun c => .outOfRange c.1 c.2

end Column

namespace Call

/-- The numbers that a call writes, by column, in the order in which they are looked at. -/
def written : Call → List (String × Nat)
  | insertHead head => [("current_version", head.version)]
  | advanceHead _ expected version =>
    [("current_version", version), ("current_version", expected)]
  | insertSnapshot snapshot => [("version", snapshot.version)]
  | insertCounter _ value => [("value", value)]
  | advanceCounter _ expected value => [("value", value), ("value", expected)]
  | insertCheckpoint row => [("insertion_order", row.order)]
  | _ => []

/-- The answer of a call for which the database need not be asked. -/
def offline? (call : Call) : Option (Except StoreError call.Answer) :=
  match call with
  | commitEvents _ [] => some (.ok true)
  | commitEvents _ (e :: _) =>
    if e.position = 0 then some (.error (.outOfRange "global_seq" 0)) else none
  | eventsOfStream _ first last => if last < first then some (.ok []) else none
  | call => (Column.firstOver call.written).map .error

end Call

end EventJournal
