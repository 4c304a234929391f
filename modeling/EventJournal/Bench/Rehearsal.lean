import EventJournal.Bench.Simulation

/-!
# Rehearsals

A rehearsal runs a pipeline on a store while an observer looks on, and reports what came of
it: the counters, what the handler remembers, what the observer found, and the checkpoints
that were written.

The pipeline may be run by itself or by the daemon, which serializes events by stream and
passes failures on as its own. A daemon may also come with a store and a handler of its own;
then the handler at hand sees nothing, and only what the observer does reaches the store at
hand.
-/

namespace EventJournal

/-- What events are grouped by. -/
inductive Grouping
  /-- Their stream. -/
  | stream
  /-- Nothing: all are in one group. -/
  | together
  /-- Their identifier: each is a group of its own. -/
  | event
  /-- The length of their type tag in bytes. -/
  | tagLength
  deriving DecidableEq, Repr

/-- The key of an event's group. -/
def Grouping.keyOf : Grouping → Event → Uuid
  | stream, e => e.stream
  | together, _ => .nil
  | event, e => e.id
  | tagLength, e => .ofNat e.tag.utf8ByteSize

/-- Who runs the pipeline. -/
inductive Host
  /-- Nobody else. -/
  | pipeline
  /-- The daemon. -/
  | daemon
  /-- A daemon with a store of its own, to which a batch was appended. -/
  | ownStore (seed : Option Batch)

namespace Host

/-- A failure of the pipeline as the host passes it on. -/
def failure : Host → PipelineError → Failure
  | pipeline, e => .pipeline e
  | _, e => .daemon (.pipeline e)

/-- The key on which the pipeline serializes events. -/
def keyOf (host : Host) (grouping : Grouping) : Event → Uuid :=
  match host with
  | pipeline => grouping.keyOf
  | _ => Grouping.stream.keyOf

/-- The store that the host brings, or why it has none. -/
def ownStore? : Host → Except Failure (Option FaultyStore)
  | pipeline | daemon => .ok none
  | ownStore none => .ok (some {})
  | ownStore (some batch) =>
    match (Step.request (.append batch)).take {} with
    | some (.error e, _, _) => .error e
    | some (.ok _, _, w) => .ok (some w)
    | none => .ok (some {})

/-- The handler that the host brings. -/
def ownHandler? : Host → Option Handler
  | ownStore _ => some { kind := .routed .empty }
  | _ => none

end Host

/-- A pipeline to be run, and what is done meanwhile. -/
structure Rehearsal where
  /-- The settings. -/
  config : PipelineConfig
  /-- What events are grouped by. -/
  grouping : Grouping
  /-- What the handler does. -/
  handler : HandlerKind
  /-- Who runs the pipeline. -/
  host : Host
  /-- What the observer does meanwhile. -/
  agenda : List TimelineStep
  /-- Whether the pipeline is stopped before it begins. -/
  stopped : Bool
  /-- What was reported while the handler was made. -/
  notices : List Warning

/-- What came of a rehearsal. -/
structure RehearsalReport where
  /-- The counters at the end. -/
  stats : Stats
  /-- The handler at the end. -/
  handler : Handler
  /-- What the observer found. -/
  findings : List TimelineReply
  /-- The latest checkpoint of the pipeline. -/
  latest : Option Checkpoint
  /-- The checkpoints that were written. -/
  rows : List Checkpoint
  /-- What was reported, in the order of the words. -/
  warnings : List String

/-- What the handler has handled, by group: each key with its events in the order of their
handling. -/
def RehearsalReport.groups (grouping : Grouping) (x : RehearsalReport) :
    List (Uuid × List Uuid) :=
  let keys := (x.handler.seen.map fun e => grouping.keyOf e.event).eraseDups
  keys.map fun key =>
    (key, (x.handler.seen.filter fun e => grouping.keyOf e.event = key).map (·.event.id))

namespace Rehearsal

/-- More turns than any rehearsal takes. -/
def horizon : Nat := 1000000000

/-- The run before anybody's first turn. A daemon hears only then that the settings make no
sense. -/
def simulation (r : Rehearsal) (w : FaultyStore) (own : Option FaultyStore) : Simulation :=
  let s := Simulation.start r.config (r.host.keyOf r.grouping)
    (r.host.ownHandler?.getD { kind := r.handler }) r.agenda r.stopped w own
  match r.config.fault? with
  | some fault => { s with loop := s.loop.goTo (.ended (.error (.config fault))) }
  | none => s

/-- The report of a run that has ended. -/
def report (r : Rehearsal) (w : FaultyStore) (s : Simulation) (stats : Stats) :
    RehearsalReport :=
  let store := s.shared.store
  { stats
    handler := if r.host.ownHandler?.isSome then { kind := r.handler } else s.handler
    findings := s.findings
    latest := store.latestCheckpoint r.config.name
    rows := store.checkpoints.drop w.store.checkpoints.length
    warnings := ((r.notices ++ s.warnings).map (·.message)).mergeSort }

/-- Runs the pipeline on a store until the observer has seen it end. -/
def perform (r : Rehearsal) (w : FaultyStore) :
    Option (Except Failure RehearsalReport × FaultyStore) :=
  match r.host, r.config.fault?, r.host.ownStore? with
  | .pipeline, some fault, _ => some (.error (.pipeline (.config fault)), w)
  | _, _, .error e => some (.error e, w)
  | _, _, .ok own =>
    let s := (r.simulation w own).finish horizon
    match s.loop.state with
    | .ended (.ok stats) => some (.ok (r.report w s stats), s.shared)
    | .ended (.error e) => some (.error (r.host.failure e), s.shared)
    | _ => none

end Rehearsal

end EventJournal
