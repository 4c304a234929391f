import EventJournal.Daemon.Error
import EventJournal.Text.LowerCase

/-!
# Settings of the daemon

The daemon takes its settings from environment variables, each with a default. They are
looked at in a fixed order, and the first that is wrong is what the daemon fails with.
-/

namespace EventJournal

/-- Where the daemon runs. -/
inductive Environment
  /-- In a test. -/
  | test
  /-- On a developer's machine. -/
  | development
  /-- For its users. -/
  | production
  deriving DecidableEq, Repr

namespace Environment

/-- The name of an environment. -/
def name : Environment → String
  | test => "test"
  | development => "development"
  | production => "production"

/-- The environment of a name, in any case; two have a short name too. -/
def parse (text : String) : Except SettingFault Environment :=
  let lower := Text.lowerCase text
  if lower = "test" then .ok test
  else if lower = "development" ∨ lower = "dev" then .ok development
  else if lower = "production" ∨ lower = "prod" then .ok production
  else .error (.environment lower)

end Environment

/-- The format of log lines. -/
inductive LogFormat
  /-- For people. -/
  | pretty
  /-- For programs. -/
  | json
  deriving DecidableEq, Repr

/-- The format of a name, in any case. -/
def LogFormat.parse (text : String) : Except SettingFault LogFormat :=
  let lower := Text.lowerCase text
  if lower = "pretty" ∨ lower = "text" then .ok pretty
  else if lower = "json" then .ok json
  else .error (.logFormat lower)

/-- The settings of the daemon. -/
structure DaemonConfig where
  /-- The settings of the pipeline. -/
  pipeline : PipelineConfig := {}
  /-- Where the daemon runs. -/
  environment : Environment := .development
  /-- The format of log lines. -/
  logFormat : LogFormat := .pretty
  /-- Where the database is, if there is one. -/
  databaseUrl : Option String := none
  deriving DecidableEq, Repr

namespace DaemonConfig

/-- The settings for tests. -/
def test : DaemonConfig :=
  { pipeline := { name := "test", pollInterval := 10, drainTimeout := 5000 }
    environment := .test }

/-- The variables that the daemon looks at, in this order. -/
def variableNames : List String :=
  ["CAIRN_ENV", "CAIRN_PIPELINE_NAME", "CAIRN_BATCH_SIZE", "CAIRN_CHECKPOINT_THRESHOLD",
    "CAIRN_WORKERS", "CAIRN_MAX_IN_FLIGHT", "CAIRN_POLL_INTERVAL_MS", "CAIRN_DRAIN_TIMEOUT_MS",
    "CAIRN_STALL_WARNING_MS", "CAIRN_LOG_FORMAT", "DATABASE_URL"]

/-- The number that a variable holds, or the default if it is not set. -/
def readNumber (lookup : String → Option String) (name : String) (default : Nat) :
    Except SettingFault Nat :=
  match lookup name with
  | none => .ok default
  | some value =>
    match Text.readWord? (Text.trim value) with
    | some n => .ok n
    | none => .error (.number name value)

/-- The settings of a pipeline, if they make sense. -/
def check (config : PipelineConfig) : Except SettingFault PipelineConfig :=
  match config.fault? with
  | some fault => .error (.pipeline fault)
  | none => .ok config

/-- The settings of the pipeline. -/
def readPipeline (lookup : String → Option String) : Except SettingFault PipelineConfig := do
  let base : PipelineConfig := {}
  let name := (lookup "CAIRN_PIPELINE_NAME").getD base.name
  let batchSize ← readNumber lookup "CAIRN_BATCH_SIZE" base.batchSize
  let checkpointThreshold ←
    readNumber lookup "CAIRN_CHECKPOINT_THRESHOLD" base.checkpointThreshold
  let workers ← readNumber lookup "CAIRN_WORKERS" base.workers
  let maxInFlight ← readNumber lookup "CAIRN_MAX_IN_FLIGHT" base.maxInFlight
  let pollInterval ← readNumber lookup "CAIRN_POLL_INTERVAL_MS" base.pollInterval
  let drainTimeout ← readNumber lookup "CAIRN_DRAIN_TIMEOUT_MS" base.drainTimeout
  let stallWarning ← readNumber lookup "CAIRN_STALL_WARNING_MS" base.stallWarning
  check
    { name, batchSize, checkpointThreshold, workers, maxInFlight, pollInterval, drainTimeout,
      stallWarning }

/-- The settings that the variables make. -/
def read (lookup : String → Option String) : Except SettingFault DaemonConfig := do
  let environment ← ((lookup "CAIRN_ENV").map Environment.parse).getD (.ok .development)
  let pipeline ← readPipeline lookup
  let logFormat ← ((lookup "CAIRN_LOG_FORMAT").map LogFormat.parse).getD (.ok .pretty)
  let databaseUrl := (lookup "DATABASE_URL").filter fun url => !Text.blank url
  return { pipeline, environment, logFormat, databaseUrl }

end DaemonConfig

end EventJournal
