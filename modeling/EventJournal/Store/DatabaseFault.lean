import EventJournal.Store.Error

/-!
# Faults of a database

What a database driver reports, and the failure of the store that each report is. A broken
uniqueness constraint is a duplicate; a pool that gives no connection makes the store
unavailable; trouble on the wire is trouble with the connection; a column that cannot be
read is a value that cannot be read back. All else is the database's own failure.
-/

namespace EventJournal

/-- A report of a database driver. -/
inductive DatabaseFault
  /-- The database answered with an error, perhaps with its code and what it concerns. -/
  | answered (text : String) (code table constraint : Option String)
  /-- No connection became free in time. -/
  | poolTimedOut
  /-- The pool was closed. -/
  | poolClosed
  /-- The task that works for the connection broke down. -/
  | workerCrashed
  /-- A row was promised and none was there. -/
  | rowNotFound
  /-- Reading or writing the connection failed. -/
  | io (text : String)
  /-- The connection could not be secured. -/
  | tls (text : String)
  /-- The database said something unexpected. -/
  | protocol (text : String)
  /-- There is no such column. -/
  | columnNotFound (text : String)
  /-- The value of a column could not be read. -/
  | columnDecode (index text : String)
  /-- A value could not be read. -/
  | decode (text : String)
  /-- A value could not be written. -/
  | encode (text : String)
  /-- The connection's settings are wrong. -/
  | configuration (text : String)
  deriving DecidableEq, Repr

namespace DatabaseFault

/-- The code of a broken uniqueness constraint. -/
def uniqueViolation : String := "23505"

/-- The driver's wording. -/
def text : DatabaseFault → String
  | answered text _ _ _ => text
  | poolTimedOut => "pool timed out while waiting for an open connection"
  | poolClosed => "attempted to acquire a connection on a closed pool"
  | workerCrashed => "attempted to communicate with a crashed background worker"
  | rowNotFound =>
    "no rows returned by a query that expected to return at least one row"
  | io text => "error communicating with database: " ++ text
  | tls text => "error occurred while attempting to establish a TLS connection: " ++ text
  | protocol text => "encountered unexpected or invalid data: " ++ text
  | columnNotFound text => "no column found for name: " ++ text
  | columnDecode index text =>
    "error occurred while decoding column " ++ index ++ ": " ++ text
  | decode text => "error occurred while decoding: " ++ text
  | encode text => "error occurred while encoding a value: " ++ text
  | configuration text => "error with configuration: " ++ text

/-- The failure of the store that a report is. -/
def toStoreError (fault : DatabaseFault) : StoreError :=
  match fault with
  | answered text code table constraint =>
    if code = some uniqueViolation then
      .duplicate (table.getD "unknown") (constraint.getD "unknown")
    else .database text
  | poolTimedOut | poolClosed => .unavailable fault.text
  | io _ | tls _ => .connection fault.text
  | columnDecode _ _ | decode _ => .serialization fault.text
  | _ => .database fault.text

end DatabaseFault

end EventJournal
