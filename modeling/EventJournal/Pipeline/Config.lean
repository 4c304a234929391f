import EventJournal.Store.Error
import EventJournal.Text.Blank

/-!
# Settings of a pipeline

What a pipeline can be told, and which settings make no sense together.
-/

namespace EventJournal

/-- The settings of a pipeline; times are in milliseconds. -/
structure PipelineConfig where
  /-- The name under which progress is noted. -/
  name : String := "default"
  /-- How many events are fetched at most at a time. -/
  batchSize : Nat := 100
  /-- How far the frontier moves before progress is noted. -/
  checkpointThreshold : Nat := 50
  /-- How many elements are handled at a time. -/
  workers : Nat := 8
  /-- How many elements may be fetched beyond the frontier. -/
  maxInFlight : Nat := 1000
  /-- The time between two fetches when there is nothing more to fetch. -/
  pollInterval : Nat := 200
  /-- How long unfinished elements are waited for at the end. -/
  drainTimeout : Nat := 30000
  /-- How long the frontier may stand still before that is reported. -/
  stallWarning : Nat := 30000
  deriving DecidableEq, Repr

/-- Why settings make no sense. -/
inductive ConfigFault
  /-- The name is blank. -/
  | blankName
  /-- Batches would be empty. -/
  | noBatch
  /-- Progress would be noted without any. -/
  | noThreshold
  /-- Nobody would handle anything. -/
  | noWorkers
  /-- A batch would not fit into what may be in flight. -/
  | batchAboveFlight (maxInFlight batchSize : Nat)
  /-- There would be no time between two fetches. -/
  | noInterval
  /-- A fault in the caller's words. -/
  | stated (text : String)
  deriving DecidableEq, Repr

/-- The wording of a fault. -/
def ConfigFault.message : ConfigFault → String
  | blankName => "name must not be empty"
  | noBatch => "batch_size must be at least 1"
  | noThreshold => "checkpoint_threshold must be at least 1"
  | noWorkers => "workers must be at least 1"
  | batchAboveFlight maxInFlight batchSize =>
    "max_in_flight (" ++ StoreError.number maxInFlight ++ ") must be at least batch_size ("
      ++ StoreError.number batchSize ++ ")"
  | noInterval => "poll_interval must be positive"
  | stated text => text

namespace PipelineConfig

/-- The first fault of the settings. -/
def fault? (c : PipelineConfig) : Option ConfigFault :=
  if Text.blank c.name then some .blankName
  else if c.batchSize = 0 then some .noBatch
  else if c.checkpointThreshold = 0 then some .noThreshold
  else if c.workers = 0 then some .noWorkers
  else if c.maxInFlight < c.batchSize then some (.batchAboveFlight c.maxInFlight c.batchSize)
  else if c.pollInterval = 0 then some .noInterval
  else none

end PipelineConfig

end EventJournal
