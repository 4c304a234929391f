import EventJournal.Checkpoint
import EventJournal.Store.EventTable
import EventJournal.Stream

/-!
# The store

The tables, and the calls that read and write them. A call is one atomic step: it answers
once, and no other call comes between its reading and its writing. Writes that depend on
what is stored (`commitEvents`, `insertHead`, `advanceHead`, `insertCounter`,
`advanceCounter`) answer whether they were made.

Calls are values of the type `EventJournal.Call`, so that what a procedure asks of the
store can be spoken of, delayed, refused, or interleaved with what others ask.
-/

namespace EventJournal

/-- The tables. -/
structure Store where
  /-- The events. -/
  events : EventTable
  /-- The heads of the streams. -/
  heads : SortedMap Uuid Head
  /-- The snapshots of each stream, in the order of their saving. -/
  snapshots : SortedMap Uuid (List Snapshot)
  /-- The values of the counters. -/
  counters : SortedMap String Nat
  /-- The checkpoints of all pipelines, in the order of their insertion. -/
  checkpoints : List Checkpoint

/-- The last of the elements with the greatest key. -/
def lastGreatest {α : Type} (key : α → Nat) (xs : List α) : Option α :=
  xs.foldl (fun best x =>
    match best with
    | some b => if key b ≤ key x then some x else some b
    | none => some x) none

namespace Store

/-- The store of empty tables. -/
def empty : Store := ⟨.empty, .empty, .empty, .empty, []⟩

instance : Inhabited Store := ⟨empty⟩

/-- The value of a counter; a counter that was never made stands at zero. -/
def counter (s : Store) (name : String) : Nat := (s.counters.get? name).getD 0

/-! ### Events -/

/-- Stores a batch whose first position is the one after the counter's value, and moves the
counter to its last position. A batch at another position is not stored. -/
def commitEvents (sequence : String) (events : List Event) (s : Store) :
    Except StoreError Bool × Store :=
  match events.head?, events.getLast? with
  | some first, some last =>
    if first.position = 0 then (.error (.outOfRange "global_seq" 0), s)
    else if s.counter sequence ≠ first.position - 1 then (.ok false, s)
    else
      match s.events.insertAll events with
      | (none, table) =>
        (.ok true,
          { s with events := table, counters := s.counters.insert sequence last.position })
      | (some e, table) => (.error e, { s with events := table })
  | _, _ => (.ok true, s)

/-! ### Heads -/

/-- Stores the head of a stream that has none. -/
def insertHead (head : Head) (s : Store) : Bool × Store :=
  if s.heads.contains head.stream then (false, s)
  else (true, { s with heads := s.heads.insert head.stream head })

/-- Moves the head of a stream from one version to another. -/
def advanceHead (stream : Uuid) (expected version : Nat) (s : Store) : Bool × Store :=
  match s.heads.get? stream with
  | some head =>
    if head.version = expected then
      (true, { s with heads := s.heads.insert stream { head with version } })
    else (false, s)
  | none => (false, s)

/-! ### Snapshots -/

/-- Stores a snapshot behind those of its stream. -/
def insertSnapshot (snapshot : Snapshot) (s : Store) : Store :=
  { s with
    snapshots := s.snapshots.insert snapshot.stream
      ((s.snapshots.get? snapshot.stream).getD [] ++ [snapshot]) }

/-- The snapshot of a stream with the greatest version up to `limit`; of several the one
saved last. -/
def findSnapshot (stream : Uuid) (limit : Nat) (s : Store) : Option Snapshot :=
  lastGreatest (·.version)
    (((s.snapshots.get? stream).getD []).filter fun x => x.version ≤ limit)

/-! ### Counters -/

/-- Makes a counter that does not exist. -/
def insertCounter (name : String) (value : Nat) (s : Store) : Bool × Store :=
  if s.counters.contains name then (false, s)
  else (true, { s with counters := s.counters.insert name value })

/-- Moves a counter from one value to another. -/
def advanceCounter (name : String) (expected value : Nat) (s : Store) : Bool × Store :=
  if s.counters.get? name = some expected then
    (true, { s with counters := s.counters.insert name value })
  else (false, s)

/-! ### Checkpoints -/

/-- Stores a checkpoint whose order no other has. -/
def insertCheckpoint (row : Checkpoint) (s : Store) : Except StoreError Unit × Store :=
  if s.checkpoints.any fun c => c.order == row.order then
    (.error (.duplicate "checkpoint" (StoreError.number row.order)), s)
  else (.ok (), { s with checkpoints := s.checkpoints ++ [row] })

/-- The checkpoint of a pipeline with the greatest order. -/
def latestCheckpoint (pipeline : String) (s : Store) : Option Checkpoint :=
  lastGreatest (·.order) (s.checkpoints.filter fun c => c.pipeline == pipeline)

end Store

/-! ### Calls -/

/-- One call on the store. -/
inductive Call
  /-- Store a batch of events at the next free positions of a counter. -/
  | commitEvents (sequence : String) (events : List Event)
  /-- The events of a stream between two indexes. -/
  | eventsOfStream (stream : Uuid) (first last : Nat)
  /-- The events after a position. -/
  | eventsAfter (position : Option Nat) (limit : Nat)
  /-- The position of an event. -/
  | positionOf (event : Uuid)
  /-- The head of a stream. -/
  | findHead (stream : Uuid)
  /-- Make the head of a stream. -/
  | insertHead (head : Head)
  /-- Move the head of a stream. -/
  | advanceHead (stream : Uuid) (expected version : Nat)
  /-- Store a snapshot. -/
  | insertSnapshot (snapshot : Snapshot)
  /-- The latest snapshot of a stream up to a version. -/
  | findSnapshot (stream : Uuid) (limit : Nat)
  /-- The value of a counter. -/
  | findCounter (name : String)
  /-- Make a counter. -/
  | insertCounter (name : String) (value : Nat)
  /-- Move a counter. -/
  | advanceCounter (name : String) (expected value : Nat)
  /-- Store a checkpoint. -/
  | insertCheckpoint (row : Checkpoint)
  /-- The latest checkpoint of a pipeline. -/
  | latestCheckpoint (pipeline : String)
  deriving DecidableEq

namespace Call

/-- What a call answers. -/
def Answer : Call → Type
  | commitEvents .. => Bool
  | eventsOfStream .. => List Event
  | eventsAfter .. => List Event
  | positionOf .. => Option Nat
  | findHead .. => Option Head
  | insertHead .. => Bool
  | advanceHead .. => Bool
  | insertSnapshot .. => Unit
  | findSnapshot .. => Option Snapshot
  | findCounter .. => Option Nat
  | insertCounter .. => Bool
  | advanceCounter .. => Bool
  | insertCheckpoint .. => Unit
  | latestCheckpoint .. => Option Checkpoint

/-- What the store answers to a call, and the store after it. -/
def perform : (call : Call) → Store → Except StoreError call.Answer × Store
  | commitEvents sequence events, s => s.commitEvents sequence events
  | eventsOfStream stream first last, s =>
    (.ok (if last < first then [] else s.events.ofStream stream first last), s)
  | eventsAfter position limit, s => (.ok (s.events.after position limit), s)
  | positionOf event, s => (.ok (s.events.positionOf event), s)
  | findHead stream, s => (.ok (s.heads.get? stream), s)
  | insertHead head, s => (s.insertHead head).map .ok id
  | advanceHead stream expected version, s => (s.advanceHead stream expected version).map .ok id
  | insertSnapshot snapshot, s => (.ok (), s.insertSnapshot snapshot)
  | findSnapshot stream limit, s => (.ok (s.findSnapshot stream limit), s)
  | findCounter name, s => (.ok (s.counters.get? name), s)
  | insertCounter name value, s => (s.insertCounter name value).map .ok id
  | advanceCounter name expected value, s =>
    (s.advanceCounter name expected value).map .ok id
  | insertCheckpoint row, s => s.insertCheckpoint row
  | latestCheckpoint pipeline, s => (.ok (s.latestCheckpoint pipeline), s)

end Call

end EventJournal
