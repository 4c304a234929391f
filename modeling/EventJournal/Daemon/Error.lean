import EventJournal.Pipeline.Error

/-!
# Failures of the daemon

Why the daemon cannot start or go on, and what is wrong with its settings.
-/

namespace EventJournal

/-- What is wrong with the daemon's settings. -/
inductive SettingFault
  /-- There is no such environment. -/
  | environment (text : String)
  /-- The value of a variable is no number. -/
  | number (name value : String)
  /-- The settings of the pipeline make no sense. -/
  | pipeline (fault : ConfigFault)
  /-- There is no such format of log lines. -/
  | logFormat (text : String)
  /-- A fault in the caller's words. -/
  | stated (text : String)
  deriving DecidableEq

/-- The wording of a fault. -/
def SettingFault.message : SettingFault → String
  | environment text =>
    "Invalid CAIRN_ENV: " ++ text ++ ". Expected: test, development, production"
  | number name value => "Invalid " ++ name ++ " value: " ++ value
  | pipeline fault => (PipelineError.config fault).message
  | logFormat text => "Invalid CAIRN_LOG_FORMAT: " ++ text ++ ". Expected: pretty, json"
  | stated text => text

/-- A failure of the daemon. -/
inductive DaemonError
  /-- The settings are wrong. -/
  | config (fault : SettingFault)
  /-- The pipeline failed. -/
  | pipeline (error : PipelineError)
  /-- The log failed. -/
  | log (error : LogError)
  /-- The store failed. -/
  | store (error : StoreError)
  deriving DecidableEq

/-- The wording of a failure. -/
def DaemonError.message : DaemonError → String
  | config fault => "Configuration error: " ++ fault.message
  | pipeline error => "Pipeline error: " ++ error.message
  | log error => "Event log error: " ++ error.message
  | store error => "Store error: " ++ error.message

end EventJournal
