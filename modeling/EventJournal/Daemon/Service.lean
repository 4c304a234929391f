import EventJournal.Pipeline.Loop

/-!
# The daemon at work

The daemon runs the loop of one pipeline on its store. It looks at the loop and the time, does
what there is to be done, and looks again:

| the loop is | and the daemon |
|---|---|
| resuming, fetching or marking | takes a step of the procedure |
| serving | stops the loop when it is to stop, delivers elements, lets the clock tick in time |
| draining | waits no longer when all has been handled or time is up, delivers elements |
| closing | closes the loop |
| ended | ends |

It calls the handlers itself. An element that has been dispatched is handled to the end before
the daemon sees to anything else, so that no two are dispatched at a time. Of all the orders in
which a loop and its workers may go on this is one, and the daemon takes its steps with
`PipelineLoop.proceed`, `PipelineLoop.turn?` and `PipelineLoop.work`, as any other order does.

Events are serialized by stream.
-/

namespace EventJournal

/-- A loop on its store, and its times. -/
structure Service where
  /-- The store. -/
  store : Store
  /-- The loop. -/
  loop : PipelineLoop
  /-- When the clock of the loop ticks next. -/
  tickAt : Nat := 0
  /-- Until when the loop waits for the elements that it has fetched, once it is stopped. -/
  deadline : Nat := 0

/-- What the daemon does next. -/
inductive Deed
  /-- It takes a step of the procedure that the loop is at. -/
  | proceed
  /-- It makes the loop do something without the store. -/
  | react (move : LoopMove)
  /-- It goes on with the handling of the element with a number. -/
  | work (number : Nat)
  /-- It rests until a time, or until it is to stop. -/
  | rest (time : Nat)
  /-- It ends. -/
  | ends (result : Except PipelineError Stats)

namespace Service

/-- A daemon that is about to begin, if its settings make sense. -/
def start (config : PipelineConfig) (store : Store) : Except PipelineError Service :=
  match config.fault? with
  | some fault => .error (.config fault)
  | none => .ok { store, loop := .start config }

/-! ### What there is to be done -/

/-- An element is dispatched, or the loop hears of one. -/
def delivery? (s : Service) : Option Deed :=
  match s.loop.run.released, s.loop.run.processed with
  | _ :: _, _ => some (.react .dispatch)
  | [], _ :: _ => some (.react .absorb)
  | [], [] => none

/-- What the daemon does next, if it is to stop or not, at the time `now`. -/
def next (stopping : Bool) (now : Nat) (s : Service) : Deed :=
  match s.loop.run.assigned, s.loop.state with
  | a :: _, _ => .work a.element.number
  | [], .resuming _ | [], .fetching _ | [], .marking .. => .proceed
  | [], .serving =>
    if stopping then .react .stop
    else s.delivery?.getD (if s.tickAt ≤ now then .react (.tick now) else .rest s.tickAt)
  | [], .draining =>
    if s.loop.run.isSettled then .react .cease
    else if s.deadline ≤ now then .react (.timeOut fun _ => false)
    else s.delivery?.getD (.rest s.deadline)
  | [], .closing => .react .close
  | [], .ended result => .ends result

/-! ### Doing it -/

/-- The times are set for what the loop does at the time `now`. -/
def schedule (move : LoopMove) (now : Nat) (s : Service) : Service :=
  match move with
  | .tick _ => { s with tickAt := s.loop.nextTick s.tickAt now }
  | .stop => { s with deadline := now + s.loop.run.config.drainTimeout }
  | _ => s

variable (outcomeOf : Event → Outcome)

/-- What comes of the handling of the element with a number. -/
def outcome (number : Nat) (s : Service) : Outcome :=
  ((s.loop.run.assignment? number).map (outcomeOf ·.element.event)).getD .succeeded

/-- The daemon does something at the time `now`, with what it reports. -/
def perform (now : Nat) (deed : Deed) (s : Service) : List Warning × Service :=
  match deed with
  | .proceed =>
    let (loop, store) := s.loop.proceed Event.stream none s.store
    let tickAt := if s.loop.ticksAgain Event.stream then now else s.tickAt
    (s.loop.reportsNext Event.stream, { s with loop, store, tickAt })
  | .react move =>
    match s.loop.turn? move with
    | some turn => (turn.warnings, { s.schedule move now with loop := turn.loop })
    | none => ([], s)
  | .work number =>
    (s.loop.run.workReports number,
      { s with loop := s.loop.work number (s.outcome outcomeOf number) })
  | .rest _ | .ends _ => ([], s)

end Service

end EventJournal
