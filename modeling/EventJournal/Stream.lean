import EventJournal.Uuid

/-!
# Streams and progress

What is stored beside the events: the head of each stream, snapshots of a stream's state,
counters, and the checkpoints that consumers leave behind.
-/

namespace EventJournal

/-- The head of a stream. -/
structure Head where
  /-- The stream. -/
  stream : Uuid
  /-- The number of events that writers have claimed in the stream. -/
  version : Nat
  /-- What kind of stream it is. -/
  kind : String
  deriving DecidableEq

/-- The state of a stream after its first `version` events. -/
structure Snapshot where
  /-- The stream. -/
  stream : Uuid
  /-- The number of events that the state accounts for. -/
  version : Nat
  /-- The state. -/
  payload : List UInt8
  deriving DecidableEq

/-- A named counter. -/
structure Counter where
  /-- The name. -/
  name : String
  /-- The last value handed out. -/
  value : Nat
  deriving DecidableEq

end EventJournal
