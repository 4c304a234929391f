import EventJournal.Daemon.Command
import EventJournal.Daemon.Service
import EventJournal.Pipeline.Routing
import Std.Async.Signal

/-!
# The program

The command line and the daemon on an empty store, until the process is interrupted. What a
command line comes to is decided by `Command.ofArguments`, what the daemon does next by
`Service.next`, and what comes of it by `Service.perform`; here are only the clock, the
environment, the interrupt and the streams.
-/

namespace EventJournal

/-- The variables that the daemon looks at, as they are set. -/
def readEnvironment : IO (List (String × String)) := do
  let pairs ← DaemonConfig.variableNames.mapM fun name => do
    return (← IO.getEnv name).map fun value => (name, value)
  return pairs.filterMap id

/-- Begins to wait for an interrupt, and answers what tells whether there was one. If it cannot
be waited for, there is none. -/
def watchInterrupt : IO (IO Bool) := do
  try
    let waiter ← Std.Async.Signal.Waiter.mk .sigint false
    let interrupt ← waiter.wait
    return do
      if ← IO.hasFinished interrupt then return interrupt.get.isOk
      else return false
  catch _ => return pure false

/-- How long the program sleeps at most before it looks for an interrupt, in milliseconds. -/
def nap : Nat := 10

/-- What the daemon makes of an event: it has no handlers. -/
def passOver : Event → Outcome := (Routing.empty : Routing (Event → Outcome)).handle id

/-- Does what there is to be done until the daemon ends. -/
partial def serve (interrupted : IO Bool) (service : Service) :
    IO (Except PipelineError Stats) := do
  let now ← IO.monoMsNow
  match service.next (← interrupted) now with
  | .ends result => return result
  | .rest time =>
    IO.sleep (UInt32.ofNat (min (time - now) nap))
    serve interrupted service
  | deed =>
    let (warnings, service) := service.perform passOver now deed
    for warning in warnings do
      IO.eprintln warning.message
    serve interrupted service

/-- Runs the daemon with the settings of a pipeline, on an empty store. -/
def runDaemon (config : PipelineConfig) : IO (Except PipelineError Stats) := do
  match Service.start config .empty with
  | .ok service => serve (← watchInterrupt) service
  | .error e => return .error e

end EventJournal

open EventJournal in
/-- Does what the command line says. -/
def main (arguments : List String) : IO UInt32 := do
  let environment ← readEnvironment
  match Command.ofArguments (fun name => environment.lookup name) arguments with
  | .ends status output errors =>
    IO.print output
    IO.eprint errors
    return UInt32.ofNat status
  | .serves config =>
    match ← runDaemon config.pipeline with
    | .ok _ => return 0
    | .error e =>
      IO.eprintln ("Error: " ++ (DaemonError.pipeline e).message)
      return 1
