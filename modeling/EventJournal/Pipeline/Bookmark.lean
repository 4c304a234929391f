import EventJournal.Log.Read
import EventJournal.Log.Sequence
import EventJournal.Pipeline.Error

/-!
# Bookmarks

A pipeline notes its progress as a row that names the last event it is done with, and
begins after the event that its latest row names. The rows of all pipelines are ordered by
one counter.
-/

namespace EventJournal

/-! ### Noting progress -/

/-- A row to be written. -/
structure Bookmark where
  /-- The pipeline. -/
  pipeline : String
  /-- The last event that the pipeline is done with. -/
  event : Uuid
  /-- When the row is made. -/
  time : Instant
  deriving DecidableEq

/-- The control states of the writing of a row. -/
inductive Marking
  /-- The place of the row is being claimed. -/
  | ordering (allocation : Allocation)
  /-- About to store the row at its place. -/
  | storing (order : Nat)
  /-- The row is stored, or the store has failed. -/
  | done (result : Except StoreError Unit)

namespace Marking

/-- The first control state. -/
def start : Marking := ordering .reading

/-- What the writing of a row does next. -/
def next (b : Bookmark) : Marking → Progress Marking (Except StoreError Unit)
  | ordering allocation =>
    (allocation.next Sequence.checkpoints).within ordering fun
      | .ok order => .moves (storing order)
      | .error e => .finished (.error e)
  | storing order =>
    .asks (.insertCheckpoint ⟨b.pipeline, b.event, order, b.time⟩) fun
      | .ok _ => done (.ok ())
      | .error e => done (.error e)
  | done result => .finished result

end Marking

/-! ### Taking up where the pipeline left off -/

/-- The control states of the search for the position after which a pipeline begins. -/
inductive Resuming
  /-- About to ask for the latest row. -/
  | asking
  /-- The position of the event that the row names is being looked for. -/
  | locating (search : Locating)
  /-- The search has ended. -/
  | done (result : Except PipelineError (Option Nat))

namespace Resuming

/-- What the search for the first position does next. -/
def next (pipeline : String) : Resuming → Progress Resuming (Except PipelineError (Option Nat))
  | asking => .asks (.latestCheckpoint pipeline) fun
    | .ok (some row) => locating (.asking row.event)
    | .ok none => done (.ok none)
    | .error e => done (.error (.store e))
  | locating search => search.next.within locating fun
    | .ok position => .finished (.ok position)
    | .error e => .finished (.error (.log e))
  | done result => .finished result

end Resuming

end EventJournal
