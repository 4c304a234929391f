import EventJournal.Uuid

/-!
# Warnings

What the library reports beside its answers. A warning is no failure: the work it is about
goes on, or has failed with an error of its own.
-/

namespace EventJournal

/-- What is reported of a frontier that has not moved for too long. -/
structure Stall where
  /-- The name of the pipeline. -/
  pipeline : String
  /-- The frontier. -/
  frontier : Nat
  /-- How many elements are beyond it. -/
  inFlight : Nat
  /-- For how long fetching has been kept up, or for how long since the last report. -/
  heldFor : Nat
  /-- The event after the frontier. -/
  next : Option Uuid
  deriving DecidableEq

/-- A report to whoever watches the log lines. -/
inductive Warning
  /-- A writer was late. -/
  | appendConflict
  /-- A read started after an event that the log does not know. -/
  | unknownEvent
  /-- An element was completed whose key was idle. -/
  | idleKeyCompleted
  /-- A handler failed. -/
  | handlerFailed
  /-- A handler broke down. -/
  | handlerPanicked
  /-- A handler took the place of another. -/
  | handlerReplaced
  /-- The frontier has not moved for too long. -/
  | stalled (stall : Stall)
  /-- A batch could not be fetched. -/
  | fetchFailed
  /-- A checkpoint could not be written. -/
  | checkpointFailed
  /-- The event at the frontier is not known. -/
  | frontierUnknown
  /-- Elements did not finish in time. -/
  | drainTimedOut
  deriving DecidableEq

/-- The wording of a warning. -/
def Warning.message : Warning → String
  | appendConflict => "Concurrency conflict on append"
  | unknownEvent => "Unknown event id, reading from the beginning of the log"
  | idleKeyCompleted => "Complete called for an idle key, ignoring"
  | handlerFailed => "Element processing failed"
  | handlerPanicked => "Element handler panicked"
  | handlerReplaced => "Replacing previously registered handler"
  | stalled _ => "Pipeline stalled: frontier not advancing"
  | fetchFailed => "Fetch failed (will retry)"
  | checkpointFailed => "Checkpoint failed (will retry)"
  | frontierUnknown => "No event recorded at cursor position"
  | drainTimedOut => "Drain timed out, abandoning unfinished elements"

end EventJournal
