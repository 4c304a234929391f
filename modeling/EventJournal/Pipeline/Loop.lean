import EventJournal.Pipeline.Run

/-!
# The loop of a pipeline

The loop owns a run and is at one thing at a time. It first looks for the position after
which it begins; then it serves: it fetches a batch when its clock ticks, dispatches
released elements, hears of processed ones, and notes its progress when enough has come
together. When it is stopped it waits for the elements that it has fetched, but not for
ever, and notes its progress for the last time.

| the loop is | and goes on by |
|---|---|
| resuming, fetching or marking | a call on the store (`PipelineLoop.procedure?`) |
| serving | `tick`, `dispatch?`, `absorb?`, `stop` |
| draining | `dispatch?`, `absorb?`, `drained?`, `timeOut` |
| closing | `close` |

What can happen to a loop is a step of its procedure (`PipelineLoop.proceed`), one of these
moves (`PipelineLoop.react`), or a step of one of its workers (`PipelineLoop.work`). Which of
these comes first is not said here; nor is the time, except to `tick`, which has to know how
long a standstill has lasted.
-/

namespace EventJournal

/-- What the loop is at. -/
inductive LoopState
  /-- It looks for the position after which it begins. -/
  | resuming (search : Resuming)
  /-- It fetches, dispatches and notes progress. -/
  | serving
  /-- It fetches a batch. -/
  | fetching (reading : Reading)
  /-- It notes progress, perhaps for the last time. -/
  | marking (bookmark : Bookmark) (marking : Marking) (isLast : Bool)
  /-- It waits for the elements that it has fetched. -/
  | draining
  /-- It has stopped waiting for them. -/
  | closing
  /-- It has ended. -/
  | ended (result : Except PipelineError Stats)

/-- A run and what the loop is at. -/
structure PipelineLoop where
  /-- The run. -/
  run : PipelineRun
  /-- What the loop is at. -/
  state : LoopState

/-- What the loop has come to by something it did. -/
structure LoopTurn where
  /-- The loop after it. -/
  loop : PipelineLoop
  /-- What is reported. -/
  warnings : List Warning := []
  /-- Whether the clock of the loop is to tick at once. -/
  again : Bool := false

/-- What a loop does without the store. -/
inductive LoopMove
  /-- Its clock ticks at a time. -/
  | tick (now : Nat)
  /-- It dispatches a released element. -/
  | dispatch
  /-- It hears of a processed element. -/
  | absorb
  /-- It is stopped. -/
  | stop
  /-- It finds that all its elements have been handled. -/
  | cease
  /-- It gives up the dispatched elements, but for those that are `spared`. -/
  | timeOut (spared : Assignment → Bool)
  /-- It hears of what it has not heard of, for the last time. -/
  | close

namespace PipelineLoop

/-- The loop of a pipeline that is about to begin. -/
def start (config : PipelineConfig) : PipelineLoop := ⟨.start config none, .resuming .asking⟩

/-- The loop at another thing. -/
def goTo (l : PipelineLoop) (state : LoopState) : PipelineLoop := { l with state }

/-- The loop ends. -/
def finish (l : PipelineLoop) : PipelineLoop := l.goTo (.ended (.ok l.run.stats))

/-- Whether the loop has ended. -/
def isEnded (l : PipelineLoop) : Bool :=
  match l.state with
  | .ended _ => true
  | _ => false

/-! ### Calls on the store -/

/-- The position after which the run begins has been found, or not. -/
def resumed (l : PipelineLoop) : Except PipelineError (Option Nat) → LoopTurn
  | .ok position => { loop := ⟨.start l.run.config position, .serving⟩, again := true }
  | .error e => { loop := l.goTo (.ended (.error e)) }

/-- A batch has been fetched, or not. A full one makes the clock tick again. -/
def fetched (keyOf : Event → Uuid) (l : PipelineLoop) : Except LogError (List Event) → LoopTurn
  | .ok events =>
    { loop := ⟨l.run.accept keyOf events, .serving⟩
      again := events.length = l.run.config.batchSize }
  | .error _ => { loop := l.goTo .serving, warnings := [.fetchFailed] }

/-- The progress has been noted, or not. -/
def marked (isLast : Bool) (l : PipelineLoop) (result : Except StoreError Unit) : LoopTurn :=
  let goOn (l : PipelineLoop) : PipelineLoop := if isLast then l.finish else l.goTo .serving
  match result with
  | .ok _ => { loop := goOn { l with run := l.run.noted } }
  | .error _ => { loop := goOn l, warnings := [.checkpointFailed] }

/-- The procedure that the loop is at, if it is at one. -/
def procedure? (keyOf : Event → Uuid) (l : PipelineLoop) :
    Option (Progress PipelineLoop LoopTurn) :=
  match l.state with
  | .resuming search =>
    some ((search.next l.run.config.name).within (fun search => l.goTo (.resuming search))
      fun result => .finished (l.resumed result))
  | .fetching reading =>
    some (reading.next.within (fun reading => l.goTo (.fetching reading))
      fun result => .finished (l.fetched keyOf result))
  | .marking bookmark marking isLast =>
    some ((marking.next bookmark).within (fun marking => l.goTo (.marking bookmark marking isLast))
      fun result => .finished (l.marked isLast result))
  | _ => none

/-! ### Serving -/

/-- The clock of the loop ticks at the time `now`. -/
def tick (now : Nat) (l : PipelineLoop) : LoopTurn :=
  match l.run.limit? with
  | none =>
    let (warnings, run) := l.run.hold now
    { loop := { l with run }, warnings }
  | some limit => { loop := ⟨l.run.release, .fetching (.after l.run.position limit)⟩ }

/-- When the clock ticks after a tick that was due at the time `due` and has come at the time
`now`: a poll interval later, where a tick that is late begins a new series. -/
def nextTick (due now : Nat) (l : PipelineLoop) : Nat :=
  let interval := l.run.config.pollInterval
  if due + 5 < now then now + interval else due + interval

/-- The loop dispatches a released element. -/
def dispatch? (l : PipelineLoop) : Option (Element × PipelineLoop) :=
  l.run.dispatch?.map fun (e, run) => (e, { l with run })

/-- The loop begins to note its progress. -/
def beginMarking (isLast : Bool) (l : PipelineLoop) : LoopTurn :=
  match l.run.reached? with
  | some event =>
    { loop := l.goTo (.marking ⟨l.run.config.name, event, .epoch⟩ .start isLast) }
  | none =>
    { loop := if isLast then l.finish else l.goTo .serving, warnings := [.frontierUnknown] }

/-- The loop hears of a processed element and, unless it has been stopped, notes its progress
if that is due. -/
def absorb? (l : PipelineLoop) : Option LoopTurn :=
  l.run.absorb?.map fun run =>
    match l.state with
    | .serving =>
      if run.isDue then { l with run }.beginMarking false else { loop := { l with run } }
    | _ => { loop := { l with run } }

/-! ### Stopping -/

/-- The loop is stopped, and waits for the elements that it has fetched. -/
def stop (l : PipelineLoop) : PipelineLoop := l.goTo .draining

/-- The loop stops waiting if all elements have been handled. -/
def drained? (l : PipelineLoop) : Option PipelineLoop :=
  if l.run.isSettled then some (l.goTo .closing) else none

/-- The loop stops waiting, and the dispatched elements are given up but for those that are
`spared`, being too far to be given up. -/
def timeOut (spared : Assignment → Bool) (l : PipelineLoop) : LoopTurn :=
  { loop := ⟨l.run.abandon spared, .closing⟩, warnings := [.drainTimedOut] }

/-- The loop hears of all that it has not heard of, and notes its progress if there is any. -/
def close (l : PipelineLoop) : LoopTurn :=
  let l := { l with run := l.run.absorbAll }
  if 0 < l.run.frontier.length then l.beginMarking true else { loop := l.finish }

/-! ### What can happen to a loop -/

/-- The loop does something, if it is at a thing at which it can; otherwise nothing
happens. -/
def react (move : LoopMove) (l : PipelineLoop) : PipelineLoop :=
  match move, l.state with
  | .tick now, .serving => (l.tick now).loop
  | .dispatch, .serving | .dispatch, .draining => (l.dispatch?.map (·.2)).getD l
  | .absorb, .serving | .absorb, .draining => (l.absorb?.map (·.loop)).getD l
  | .stop, .serving => l.stop
  | .cease, .draining => l.drained?.getD l
  | .timeOut spared, .draining => (l.timeOut spared).loop
  | .close, .closing => l.close.loop
  | _, _ => l

/-- What a loop comes to by something that it does without the store, if it is at a thing at which
it can. -/
def turn? (move : LoopMove) (l : PipelineLoop) : Option LoopTurn :=
  match move, l.state with
  | .tick now, .serving => some (l.tick now)
  | .dispatch, .serving | .dispatch, .draining => l.dispatch?.map fun x => { loop := x.2 }
  | .absorb, .serving | .absorb, .draining => l.absorb?
  | .stop, .serving => some { loop := l.stop }
  | .cease, .draining => l.drained?.map fun l => { loop := l }
  | .timeOut spared, .draining => some (l.timeOut spared)
  | .close, .closing => some l.close
  | _, _ => none

/-- What a loop reports when it does something without the store. -/
def reports (move : LoopMove) (l : PipelineLoop) : List Warning :=
  ((l.turn? move).map (·.warnings)).getD []

/-- One step of the procedure that the loop is at, the call of which may fail. -/
def proceed (keyOf : Event → Uuid) (fault : Option StoreError) (l : PipelineLoop) (s : Store) :
    PipelineLoop × Store :=
  match l.procedure? keyOf with
  | some p =>
    match p.result? with
    | some turn => (turn.loop, s)
    | none => p.step fault l s
  | none => (l, s)

/-- What a loop reports at the next step of its procedure: what the procedure reports, or what is
reported of its result. -/
def reportsNext (keyOf : Event → Uuid) (l : PipelineLoop) : List Warning :=
  match l.procedure? keyOf with
  | some (.warns warning _) => [warning]
  | some (.finished turn) => turn.warnings
  | _ => []

/-- Whether the clock of the loop is to tick at once after that step. -/
def ticksAgain (keyOf : Event → Uuid) (l : PipelineLoop) : Bool :=
  ((l.procedure? keyOf).bind (·.result?)).any (·.again)

/-- A worker of the loop goes on. -/
def work (number : Nat) (outcome : Outcome) (l : PipelineLoop) : PipelineLoop :=
  { l with run := l.run.work number outcome }

end PipelineLoop

end EventJournal
