import EventJournal.Log.Error
import EventJournal.Pipeline.Config

/-!
# Failures of a pipeline

Why a pipeline cannot start. Once it runs, what fails is reported and tried again.
-/

namespace EventJournal

/-- A failure of a pipeline. -/
inductive PipelineError
  /-- The settings make no sense. -/
  | config (fault : ConfigFault)
  /-- The log failed. -/
  | log (error : LogError)
  /-- The store failed. -/
  | store (error : StoreError)
  deriving DecidableEq

/-- The wording of a failure. -/
def PipelineError.message : PipelineError → String
  | config fault => "Invalid pipeline configuration: " ++ fault.message
  | log error => "Event log error: " ++ error.message
  | store error => "Store error: " ++ error.message

end EventJournal
