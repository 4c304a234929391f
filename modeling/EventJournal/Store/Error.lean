import EventJournal.Text.Digits

/-!
# Failures of the store

What can go wrong between the library and the place where it keeps its tables.
-/

namespace EventJournal

/-- A failure of the store. -/
inductive StoreError
  /-- A row with the same key exists. -/
  | duplicate (entity key : String)
  /-- A number does not fit its column. -/
  | outOfRange (column : String) (value : Nat)
  /-- A value could not be read back. -/
  | serialization (text : String)
  /-- The database refused. -/
  | database (text : String)
  /-- The database could not be reached. -/
  | connection (text : String)
  /-- The store cannot be used now. -/
  | unavailable (text : String)
  deriving DecidableEq, Repr

namespace StoreError

/-- A number as a text. -/
def number (n : Nat) : String := String.ofList (Text.decimal n)

/-- The wording of a failure. -/
def message : StoreError → String
  | duplicate entity key => "Duplicate entity: " ++ entity ++ " with id " ++ key
  | outOfRange column value => "Value out of range for " ++ column ++ ": " ++ number value
  | serialization text => "Serialization error: " ++ text
  | database text => "Database error: " ++ text
  | connection text => "Connection error: " ++ text
  | unavailable text => "Store unavailable: " ++ text

end StoreError

end EventJournal
