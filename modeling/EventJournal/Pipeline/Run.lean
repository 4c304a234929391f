import EventJournal.Pipeline.Bookmark
import EventJournal.Pipeline.Element
import EventJournal.Pipeline.Frontier
import EventJournal.Pipeline.Lanes

/-!
# The run of a pipeline

A run fetches events in the order of the log, numbers them, and puts them on lanes. A
released element waits in the channel `released` until it is dispatched, then for a free
worker; its handler is run; its success is announced in the channel `processed`; it is
completed on its lane, which may release another; and its outcome is counted. The loop
takes the announcements out of the channel, moves the frontier, and notes the progress
when the frontier has come far enough.

Each of these is a step of its own (`accept`, `dispatch`, `begin`, `settle`, `announce`,
`complete`, `count`, `absorb`, `noted`). What the worker of one element does is put together in
`PipelineRun.work`; nothing here says in which order steps of different elements come. How far the
run may fetch ahead of the frontier is `PipelineRun.room`; that it has none for too long is
reported by `PipelineRun.hold`.
-/

namespace EventJournal

/-- The counters of a run. -/
structure Stats where
  /-- How many events were fetched. -/
  fetched : Nat := 0
  /-- How many elements were handled with success. -/
  processed : Nat := 0
  /-- How many elements were handled without. -/
  failed : Nat := 0
  /-- How often progress was noted. -/
  checkpoints : Nat := 0
  /-- How often a standstill was reported. -/
  stallWarnings : Nat := 0
  deriving DecidableEq, Repr

/-- How many elements have been handled, either way. -/
def Stats.settled (s : Stats) : Nat := s.processed + s.failed

/-- How far a dispatched element has come. -/
inductive Stage
  /-- It waits for a free worker. -/
  | waiting
  /-- Its handler runs. -/
  | running
  /-- Its handler has returned. -/
  | settled (outcome : Outcome)
  /-- Its success, if it is one, has been announced. -/
  | announced (outcome : Outcome)
  /-- It has been completed on its lane. -/
  | completed (outcome : Outcome)
  deriving DecidableEq, Repr

/-- A dispatched element whose outcome has not been counted. -/
structure Assignment where
  /-- The element. -/
  element : Element
  /-- How far it has come. -/
  stage : Stage
  deriving DecidableEq

/-- The state of a run. -/
structure PipelineRun where
  /-- The settings. -/
  config : PipelineConfig
  /-- The frontier of the elements' numbers. -/
  frontier : Frontier
  /-- How many elements have been fetched, which is the last of their numbers. -/
  fetched : Nat
  /-- The position of the event that was fetched last, or the one the run began after. -/
  position : Option Nat
  /-- The events of the numbers for which progress has not been noted. -/
  known : SortedMap Nat Uuid
  /-- The frontier that keeps the run from fetching, and since when. -/
  heldSince : Option (Nat × Nat)
  /-- The lanes of the keys. -/
  lanes : Lanes Uuid Element
  /-- The elements that are released and not dispatched. -/
  released : List Element
  /-- The dispatched elements, in the order of their dispatch. -/
  assigned : List Assignment
  /-- The elements whose success the loop has not heard of. -/
  processed : List Element
  /-- The counters. -/
  stats : Stats

namespace PipelineRun

/-- A run that begins after a position. -/
def start (config : PipelineConfig) (position : Option Nat) : PipelineRun :=
  { config, frontier := .ofPosition 0, fetched := 0, position, known := .empty,
    heldSince := none, lanes := .empty, released := [], assigned := [], processed := [],
    stats := {} }

/-! ### Fetching -/

/-- How many elements are beyond the frontier. -/
def inFlight (r : PipelineRun) : Nat := r.fetched - r.frontier.position

/-- How many more may be. -/
def room (r : PipelineRun) : Nat := r.config.maxInFlight - r.inFlight

/-- What a fetch asks for: nothing if there is no room, and otherwise at most a batch. -/
def limit? (r : PipelineRun) : Option Nat :=
  if r.room = 0 then none else some (min r.config.batchSize r.room)

/-- A fetch at the time `now` that finds no room. If the frontier has been where it is for
the time set, or for this time since the last report, it is reported. -/
def hold (now : Nat) (r : PipelineRun) : List Warning × PipelineRun :=
  match r.heldSince with
  | some (frontier, since) =>
    if frontier = r.frontier.position then
      if r.config.stallWarning ≤ now - since then
        ([.stalled ⟨r.config.name, frontier, r.inFlight, now - since,
            r.known.get? (frontier + 1)⟩],
          { r with
            heldSince := some (frontier, now)
            stats := { r.stats with stallWarnings := r.stats.stallWarnings + 1 } })
      else ([], r)
    else ([], { r with heldSince := some (r.frontier.position, now) })
  | none => ([], { r with heldSince := some (r.frontier.position, now) })

/-- A fetch that finds room. -/
def release (r : PipelineRun) : PipelineRun := { r with heldSince := none }

/-- Numbers one event and puts it on its lane. -/
def acceptOne (keyOf : Event → Uuid) (r : PipelineRun) (event : Event) : PipelineRun :=
  let element : Element := ⟨r.fetched + 1, keyOf event, event⟩
  let (released, lanes) := r.lanes.offer element.key element
  { r with
    fetched := r.fetched + 1
    position := some event.position
    known := r.known.insert (r.fetched + 1) event.id
    lanes
    released := r.released ++ released.toList }

/-- Numbers the events of a batch and puts them on their lanes. -/
def accept (keyOf : Event → Uuid) (events : List Event) (r : PipelineRun) : PipelineRun :=
  let r := events.foldl (acceptOne keyOf) r
  { r with stats := { r.stats with fetched := r.stats.fetched + events.length } }

/-! ### Handling -/

/-- Dispatches the first released element. -/
def dispatch? (r : PipelineRun) : Option (Element × PipelineRun) :=
  match r.released with
  | e :: rest => some (e, { r with released := rest, assigned := r.assigned ++ [⟨e, .waiting⟩] })
  | [] => none

/-- The assignment of the element with a number. -/
def assignment? (r : PipelineRun) (number : Nat) : Option Assignment :=
  r.assigned.find? fun a => a.element.number = number

/-- Moves the element with a number to another stage. -/
def moveTo (r : PipelineRun) (number : Nat) (stage : Stage) : PipelineRun :=
  { r with
    assigned := r.assigned.map fun a =>
      if a.element.number = number then { a with stage } else a }

/-- The handler of an element begins. -/
def begin (number : Nat) (r : PipelineRun) : PipelineRun := r.moveTo number .running

/-- The handler of an element returns. -/
def settle (number : Nat) (outcome : Outcome) (r : PipelineRun) : PipelineRun :=
  r.moveTo number (.settled outcome)

/-- The success of an element is announced, if it is one. -/
def announce (element : Element) (outcome : Outcome) (r : PipelineRun) : PipelineRun :=
  let r := r.moveTo element.number (.announced outcome)
  if outcome.isSuccess then { r with processed := r.processed ++ [element] } else r

/-- An element is completed on its lane. -/
def complete (element : Element) (outcome : Outcome) (r : PipelineRun) :
    List Warning × PipelineRun :=
  let (completion, lanes) := r.lanes.complete element.key
  (completion.warning?.toList,
    { r.moveTo element.number (.completed outcome) with
      lanes
      released := r.released ++ completion.element?.toList })

/-- The outcome of an element is counted. -/
def count (number : Nat) (outcome : Outcome) (r : PipelineRun) : PipelineRun :=
  { r with
    assigned := r.assigned.filter fun a => a.element.number ≠ number
    stats :=
      if outcome.isSuccess then { r.stats with processed := r.stats.processed + 1 }
      else { r.stats with failed := r.stats.failed + 1 } }

/-- How many workers are at an element. -/
def busy (r : PipelineRun) : Nat := (r.assigned.filter fun a => a.stage ≠ .waiting).length

/-- What the worker of the element with a number does next: it begins if a worker is free,
returns with an outcome, announces it, completes the element, and counts the outcome. -/
def work (number : Nat) (outcome : Outcome) (r : PipelineRun) : PipelineRun :=
  match r.assignment? number with
  | some ⟨_, .waiting⟩ => if r.busy < r.config.workers then r.begin number else r
  | some ⟨_, .running⟩ => r.settle number outcome
  | some ⟨e, .settled outcome⟩ => r.announce e outcome
  | some ⟨e, .announced outcome⟩ => (r.complete e outcome).2
  | some ⟨_, .completed outcome⟩ => r.count number outcome
  | none => r

/-- What the worker reports then. -/
def workReports (number : Nat) (r : PipelineRun) : List Warning :=
  match r.assignment? number with
  | some ⟨_, .settled outcome⟩ => outcome.warning?.toList
  | some ⟨e, .announced outcome⟩ => (r.complete e outcome).1
  | _ => []

/-- The dispatched elements are given up, but for those that are `spared`. -/
def abandon (spared : Assignment → Bool) (r : PipelineRun) : PipelineRun :=
  { r with assigned := r.assigned.filter spared }

/-! ### Progress -/

/-- The loop hears of the first success it has not heard of. -/
def absorb? (r : PipelineRun) : Option PipelineRun :=
  match r.processed with
  | e :: rest => some { r with processed := rest, frontier := r.frontier.finish e.number }
  | [] => none

/-- The loop hears of all successes. -/
def absorbAll (r : PipelineRun) : PipelineRun :=
  { r with
    processed := []
    frontier := r.processed.foldl (fun f e => f.finish e.number) r.frontier }

/-- Whether the frontier has come far enough for its progress to be noted. -/
def isDue (r : PipelineRun) : Bool := r.config.checkpointThreshold ≤ r.frontier.length

/-- The event at the frontier. -/
def reached? (r : PipelineRun) : Option Uuid := r.known.get? r.frontier.position

/-- The progress up to the frontier has been noted. -/
def noted (r : PipelineRun) : PipelineRun :=
  { r with
    frontier := r.frontier.clear
    known := r.known.above r.frontier.position
    stats := { r.stats with checkpoints := r.stats.checkpoints + 1 } }

/-- Whether all fetched elements have been handled. -/
def isSettled (r : PipelineRun) : Bool := r.fetched ≤ r.stats.settled

end PipelineRun

end EventJournal
