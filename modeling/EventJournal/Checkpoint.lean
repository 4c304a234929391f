import EventJournal.Instant.Calendar
import EventJournal.Uuid

/-!
# Checkpoints

A pipeline that has handled all events up to some event leaves a row that names this event.
Rows are never changed; of the rows of one pipeline the one inserted last counts.
-/

namespace EventJournal

/-- The mark of a pipeline's progress. -/
structure Checkpoint where
  /-- The pipeline. -/
  pipeline : String
  /-- The last of the events that the pipeline is done with. -/
  event : Uuid
  /-- The place of the row among the rows of all pipelines. -/
  order : Nat
  /-- When the row was made. -/
  time : Instant
  deriving DecidableEq

end EventJournal
