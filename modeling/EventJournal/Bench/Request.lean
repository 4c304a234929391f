import EventJournal.Bench.Turn
import EventJournal.Daemon.Error
import EventJournal.Log.Append
import EventJournal.Log.State
import EventJournal.Pipeline.Bookmark

/-!
# Requests

Everything that can be asked of the log in a rehearsal, with the answer to each. A request
is one procedure or one call; `Activity` is the control state of whichever it is, so that
requests of all kinds can run beside each other.
-/

namespace EventJournal

/-- What can be asked. -/
inductive Request
  /-- Append a batch to a stream. -/
  | append (batch : Batch)
  /-- Append to several streams. -/
  | appendEach (proposals : List Proposal)
  /-- The events of a stream between two indexes. -/
  | readStream (stream : Uuid) (first last : Nat)
  /-- The version of a stream. -/
  | streamVersion (stream : Uuid)
  /-- The events after a position. -/
  | readAfter (position : Option Nat) (limit : Nat)
  /-- The events after an event. -/
  | readAfterEvent (event : Option Uuid) (limit : Nat)
  /-- The position of an event. -/
  | positionOf (event : Uuid)
  /-- The events after a position, page by page. -/
  | pages (position : Option Nat) (limit : Nat)
  /-- Save a snapshot. -/
  | saveSnapshot (snapshot : Snapshot)
  /-- The latest snapshot of a stream up to a version. -/
  | findSnapshot (stream : Uuid) (limit : Nat)
  /-- Save a state. -/
  | saveState (stream : Uuid) (version : Nat) (state : State)
  /-- The latest state of a stream up to a version. -/
  | loadState (stream : Uuid) (limit : Nat) (form : StateForm)
  /-- The next number of a counter. -/
  | allocate (counter : String)
  /-- The last number of a counter. -/
  | currentNumber (counter : String)
  /-- Commit drafts to a stream at the next numbers of a counter. -/
  | commit (counter : String) (stream : Uuid) (index : Nat) (drafts : List Draft)
  /-- Note the progress of a pipeline. -/
  | mark (bookmark : Bookmark)
  /-- The event that a pipeline has noted last. -/
  | lastMarked (pipeline : String)
  /-- Make one call on the store. -/
  | call (call : Call)
  /-- Append drafts to a stream at whatever version it has. -/
  | seedStream (stream : Uuid) (drafts : List Draft)
  /-- Append batches one after another. -/
  | seedBatches (batches : List Batch)

/-- What is answered. -/
inductive Answer
  /-- Nothing. -/
  | unit
  /-- Yes or no. -/
  | flag (value : Bool)
  /-- A number, or none. -/
  | number (value : Option Nat)
  /-- Events. -/
  | events (events : List Event)
  /-- The results of the batches for several streams. -/
  | streams (results : List StreamResult)
  /-- Pages of events. -/
  | pages (pages : List (List Event))
  /-- A snapshot, or none. -/
  | snapshot (snapshot : Option Snapshot)
  /-- A state with its version, or none. -/
  | state (state : Option (Nat × State))
  /-- The first numbers that a commit has tried for, and the events it has stored. -/
  | commit (tried : List Nat) (events : List Event)
  /-- An identifier, or none. -/
  | event (event : Option Uuid)
  /-- The head of a stream, or none. -/
  | head (head : Option Head)
  /-- A checkpoint, or none. -/
  | checkpoint (row : Option Checkpoint)
  /-- How many events and how many checkpoints there are. -/
  | counts (events checkpoints : Nat)
  /-- A draft. -/
  | draft (draft : Draft)

/-- Why there is no answer. -/
inductive Failure
  /-- The store failed. -/
  | store (error : StoreError)
  /-- The log failed. -/
  | log (error : LogError)
  /-- The pipeline failed. -/
  | pipeline (error : PipelineError)
  /-- The daemon failed. -/
  | daemon (error : DaemonError)
  deriving DecidableEq

/-- An answer or a failure. -/
abbrev Reply : Type := Except Failure Answer

/-- The reply of a procedure that may fail with the log. -/
def Reply.ofLog {α : Type} (toAnswer : α → Answer) : Except LogError α → Reply
  | .ok v => .ok (toAnswer v)
  | .error e => .error (.log e)

/-- The reply of a procedure that may fail with the store. -/
def Reply.ofStore {α : Type} (toAnswer : α → Answer) : Except StoreError α → Reply
  | .ok v => .ok (toAnswer v)
  | .error e => .error (.store e)

/-- The reply of a procedure of a pipeline that may fail with the store. -/
def Reply.ofProgress {α : Type} (toAnswer : α → Answer) : Except StoreError α → Reply
  | .ok v => .ok (toAnswer v)
  | .error e => .error (.pipeline (.store e))

/-- The answer of a call. -/
def Call.toAnswer : (call : Call) → call.Answer → EventJournal.Answer
  | .commitEvents .., b => .flag b
  | .eventsOfStream .., es => .events es
  | .eventsAfter .., es => .events es
  | .positionOf .., p => .number p
  | .findHead .., h => .head h
  | .insertHead .., b => .flag b
  | .advanceHead .., b => .flag b
  | .insertSnapshot .., _ => .unit
  | .findSnapshot .., s => .snapshot s
  | .findCounter .., n => .number n
  | .insertCounter .., b => .flag b
  | .advanceCounter .., b => .flag b
  | .insertCheckpoint .., _ => .unit
  | .latestCheckpoint .., r => .checkpoint r

/-! ### Activities -/

/-- The control states of all requests. -/
inductive Activity
  /-- About to make the one call of a request. -/
  | calling
  /-- Appending a batch, with the batches behind it and the events before it. -/
  | appending (committed : List Event) (batch : Batch) (append : Append) (rest : List Batch)
  /-- Appending to several streams. -/
  | appendingEach (append : AppendEach)
  /-- Reading events. -/
  | reading (reading : Reading)
  /-- Looking for a position. -/
  | locating (search : Locating)
  /-- Reading pages. -/
  | paging (paging : Paging)
  /-- Saving a snapshot. -/
  | saving (saving : Saving)
  /-- Loading a snapshot. -/
  | loading (loading : Loading)
  /-- Claiming a number. -/
  | allocating (allocation : Allocation)
  /-- Committing drafts. -/
  | committing (commit : Commit)
  /-- Noting progress. -/
  | marking (marking : Marking)
  /-- The reply is there. -/
  | done (reply : Reply)

namespace Activity

/-- Goes on to the next of several batches. -/
def proceed (committed : List Event) : List Batch → Activity
  | [] => done (.ok (.events committed))
  | b :: rest => appending committed b (.start b) rest

/-- Makes a call and replies with what becomes of its answer. -/
def once (call : Call) (reply : Except StoreError call.Answer → Reply) : Progress Activity Reply :=
  .asks call fun answer => done (reply answer)

end Activity

namespace Request

/-- The first control state of a request. -/
def start : Request → Activity
  | append batch => .appending [] batch (.start batch) []
  | appendEach proposals => .appendingEach (.start proposals)
  | readStream stream first last => .reading (.ofStream stream first last)
  | readAfter position limit => .reading (.after position limit)
  | readAfterEvent event limit => .reading (.afterEvent event limit)
  | positionOf event => .locating (.asking event)
  | pages position limit => .paging (.reading [] (.after position limit))
  | saveSnapshot snapshot => .saving (.storing snapshot)
  | findSnapshot stream limit => .loading (.asking stream limit)
  | saveState stream version state => .saving (.ofState stream version state)
  | loadState stream limit _ => .loading (.asking stream limit)
  | allocate _ => .allocating .reading
  | commit .. => .committing .start
  | mark _ => .marking .start
  | seedBatches batches => .proceed [] batches
  | streamVersion _ | currentNumber _ | lastMarked _ | call _ | seedStream .. => .calling

/-- What a request does in its one call. -/
def callOnce : Request → Progress Activity Reply
  | streamVersion stream => Activity.once (.findHead stream) fun
    | .ok head => .ok (.number (head.map (·.version)))
    | .error e => .error (.log (.store e))
  | currentNumber counter => Activity.once (.findCounter counter) fun
    | .ok value => .ok (.number (some (value.getD 0)))
    | .error e => .error (.store e)
  | lastMarked pipeline => Activity.once (.latestCheckpoint pipeline)
      (Reply.ofProgress fun row => .event (row.map (·.event)))
  | call c => Activity.once c (Reply.ofStore c.toAnswer)
  | seedStream stream drafts => .asks (.findHead stream) fun
    | .ok head =>
      .proceed [] [⟨stream, (head.map (·.version)).getD 0, drafts, Batch.defaultKind⟩]
    | .error e => .done (.error (.log (.store e)))
  | _ => .finished (.ok .unit)

/-- The reply to a loaded snapshot: the snapshot, or the state that it stands for. -/
def ofLoaded (request : Request) (loaded : Except LogError (Option Snapshot)) : Reply :=
  match request with
  | loadState _ _ form => Reply.ofLog .state (loaded.bind (Snapshot.toState form))
  | _ => Reply.ofLog .snapshot loaded

/-- The events that the drafts of a request become from a number on. -/
def build (request : Request) (first : Nat) : List Event :=
  match request with
  | commit _ stream index drafts => Draft.placeAll stream index first drafts
  | _ => []

/-- The counter of a request. -/
def counter : Request → String
  | commit name _ _ _ => name
  | allocate name => name
  | _ => Sequence.events

/-- What a request does next. -/
def next (request : Request) : Activity → Progress Activity Reply
  | .calling => request.callOnce
  | .appending committed batch a rest =>
    (a.next batch).within (.appending committed batch · rest) fun
      | .ok events => .moves (.proceed (committed ++ events) rest)
      | .error e => .finished (.error (.log e))
  | .appendingEach a => a.next.within .appendingEach fun results =>
      .finished (.ok (.streams results))
  | .reading reading => reading.next.within .reading fun r => .finished (Reply.ofLog .events r)
  | .locating search => search.next.within .locating fun r => .finished (Reply.ofLog .number r)
  | .paging paging =>
    let limit := match request with
      | pages _ limit => limit
      | _ => 0
    (paging.next limit).within .paging fun r => .finished (Reply.ofLog .pages r)
  | .saving saving => saving.next.within .saving fun r =>
      .finished (Reply.ofLog (fun _ => .unit) r)
  | .loading loading => loading.next.within .loading fun r => .finished (request.ofLoaded r)
  | .allocating allocation => (allocation.next request.counter).within .allocating fun r =>
      .finished (Reply.ofStore (fun n => .number (some n)) r)
  | .committing c => (c.next request.counter request.build).within .committing fun r =>
      .finished (Reply.ofStore (fun (tried, events) => .commit tried events) r)
  | .marking marking =>
    match request with
    | mark bookmark => (marking.next bookmark).within .marking fun r =>
        .finished (Reply.ofProgress (fun _ => .unit) r)
    | _ => .finished (.ok .unit)
  | .done reply => .finished reply

end Request

end EventJournal
