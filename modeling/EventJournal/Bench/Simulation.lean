import EventJournal.Bench.Handler
import EventJournal.Bench.Step
import EventJournal.Pipeline.Loop

/-!
# Simulated runs

A pipeline runs on a clock that moves only when everybody waits. Four kinds of tasks take
turns: the *loop* of the pipeline, a *worker* for each dispatched element, the *handler*
that the worker calls, and an *observer* who goes through a list of things to do meanwhile,
then stops the pipeline and waits for it.

A task that is woken joins the end of the queue of ready tasks, and goes on until it waits.
Tasks whose time comes at the same moment are woken in the order in which they began to
wait; only the observer goes first. A task that lets others go first comes back when no
other is ready.

The loop looks first whether it is to stop, then at released elements, then at processed
ones, then at its clock. The clock ticks at once, and then a poll interval after each tick;
a tick that is more than five milliseconds late begins a new series. A full batch makes it
tick again at once. While a call of the loop is delayed, the loop does nothing else.
-/

namespace EventJournal

/-- Who takes turns. -/
inductive Task
  /-- The loop of the pipeline. -/
  | loop
  /-- The worker of the element with a number. -/
  | worker (number : Nat)
  /-- The handler of the element with a number. -/
  | handler (number : Nat)
  /-- The observer. -/
  | observer
  deriving DecidableEq, Repr

/-- What the observer does. -/
inductive TimelineStep
  /-- Take a step. -/
  | take (step : Step)
  /-- Read the counters. -/
  | stats
  /-- Ask how much the handler has done. -/
  | handled
  /-- Wait until the handler has done so much, but not longer than a time. -/
  | waitCount (count ms : Nat)
  /-- Stop the pipeline. -/
  | cancel

/-- What the observer finds. -/
inductive TimelineReply
  /-- The reply to a step. -/
  | taken (reply : Reply)
  /-- The counters. -/
  | stats (stats : Stats)
  /-- How much the handler has done. -/
  | handled (count : Nat)
  /-- Whether the handler has done so much in time. -/
  | reached (value : Bool)
  /-- The pipeline has been stopped. -/
  | cancelled

/-- What the observer is at. -/
inductive ObserverState
  /-- About to do the next thing. -/
  | idle
  /-- Taking a step. -/
  | taking (step : Step) (state : StepState) (late : Bool)
  /-- Waiting for the handler until a time. -/
  | counting (count deadline : Nat)
  /-- Waiting for the pipeline to end. -/
  | joining
  /-- Done. -/
  | done

/-- A simulated run. -/
structure Simulation where
  /-- The time. -/
  now : Nat := 0
  /-- The store that the observer's steps are about. -/
  shared : FaultyStore
  /-- The store of the pipeline, if it is another. -/
  own : Option FaultyStore
  /-- The key of an event. -/
  keyOf : Event → Uuid
  /-- The pipeline. -/
  loop : PipelineLoop
  /-- The handler. -/
  handler : Handler
  /-- Until when a call of the loop is delayed. -/
  loopUntil : Option Nat := none
  /-- When the loop's clock ticks next. -/
  tickAt : Nat := 0
  /-- Whether the loop waits for the tick. -/
  tickArmed : Bool := false
  /-- Until when the loop waits for the elements that it has fetched, once it is stopped. -/
  deadline : Nat := 0
  /-- Whether the loop waits for that time. -/
  deadlineArmed : Bool := false
  /-- Whether the pipeline is to stop. -/
  stopped : Bool
  /-- How many workers are free. -/
  free : Nat
  /-- The workers' elements that wait for a free worker, in order. -/
  queue : List Nat := []
  /-- The elements that have been given a worker and do not know it yet. -/
  granted : List Nat := []
  /-- The elements that are handled, and whether their handler has begun. -/
  handling : List (Element × Bool) := []
  /-- What the observer has yet to do. -/
  agenda : List TimelineStep
  /-- What the observer is at. -/
  observer : ObserverState := .idle
  /-- Until when the observer waits. -/
  observerUntil : Option Nat := none
  /-- What the observer has found. -/
  findings : List TimelineReply := []
  /-- Whose turn it is. -/
  active : Option Task := some .observer
  /-- Whose turn is next. -/
  ready : List Task := [.loop]
  /-- Who has let others go first. -/
  deferred : List Task := []
  /-- Who waits for which time, in the order in which they began to wait. -/
  timers : List (Nat × Task) := []
  /-- Whether the observer has been woken. -/
  observerDue : Bool := false
  /-- Whether tasks have just been woken by time. -/
  fired : Bool := false
  /-- What has been reported. -/
  warnings : List Warning := []

namespace Simulation

/-! ### Taking turns -/

/-- The task at hand waits. -/
def pause (s : Simulation) : Simulation := { s with active := none }

/-- Wakes a task. -/
def wake (task : Task) (s : Simulation) : Simulation :=
  if task = .observer then { s with observerDue := true }
  else if s.active = some task || s.ready.contains task then s
  else { s with ready := s.ready ++ [task] }

/-- A task is to be woken at a time. -/
def wakeAt (time : Nat) (task : Task) (s : Simulation) : Simulation :=
  { s with timers := s.timers ++ [(time, task)] }

/-- The task at hand lets others go first. -/
def yield (task : Task) (s : Simulation) : Simulation :=
  { s with active := none, deferred := s.deferred ++ [task] }

/-- Reports. -/
def report (warnings : List Warning) (s : Simulation) : Simulation :=
  { s with warnings := s.warnings ++ warnings }

/-- Chooses the next task, and moves time if none is ready. -/
def choose (s : Simulation) : Simulation :=
  if s.observerDue && (s.fired || s.ready.isEmpty) then
    { s with active := some .observer, observerDue := false, fired := false }
  else
    match s.ready with
    | task :: rest => { s with active := some task, ready := rest, fired := false }
    | [] =>
      if !s.deferred.isEmpty then
        s.deferred.foldl (fun s task => s.wake task) { s with deferred := [], fired := true }
      else
        match (s.timers.map (·.1)).min? with
        | none => { s with observer := .done }
        | some time =>
          let now := max s.now time
          let due := s.timers.filter fun t => t.1 ≤ now
          due.foldl (fun s t => s.wake t.2)
            { s with now, timers := s.timers.filter (fun t => now < t.1), fired := true }

/-! ### The loop -/

/-- The store of the pipeline. -/
def store (s : Simulation) : FaultyStore := s.own.getD s.shared

/-- The simulation with another store for the pipeline. -/
def withStore (s : Simulation) (w : FaultyStore) : Simulation :=
  match s.own with
  | some _ => { s with own := some w }
  | none => { s with shared := w }

/-- The run of the pipeline. -/
def run (s : Simulation) : PipelineRun := s.loop.run

/-- The simulation with another run of the pipeline. -/
def withRun (s : Simulation) (run : PipelineRun) : Simulation :=
  { s with loop := { s.loop with run } }

/-- The loop has done something. -/
def adopt (turn : LoopTurn) (s : Simulation) : Simulation :=
  let s := { s with loop := turn.loop }.report turn.warnings
  let s := if turn.again then { s with tickAt := s.now, tickArmed := false } else s
  if turn.loop.isEnded then (s.wake .observer).pause else s

/-- One step of a procedure of the loop. -/
def loopProcedure (progress : Progress PipelineLoop LoopTurn) (s : Simulation) : Simulation :=
  match s.loopUntil with
  | some time =>
    if s.now < time then s.pause
    else
      let (turn, warnings, w) := progress.turn true s.store
      let s := ({ s with loopUntil := none }.withStore w).report warnings
      match turn with
      | .goesOn loop => { s with loop }
      | .ends turn => s.adopt turn
      | .yields loop => { s with loop }.yield .loop
      | .waits _ => s
  | none =>
    let (turn, warnings, w) := progress.turn false s.store
    let s := (s.withStore w).report warnings
    match turn with
    | .goesOn loop => { s with loop }
    | .ends turn => s.adopt turn
    | .yields loop => { s with loop }.yield .loop
    | .waits ms =>
      let s := { s with loopUntil := some (s.now + ms) }
      if ms = 0 then s else (s.wakeAt (s.now + ms) .loop).pause

/-- The loop dispatches a released element. -/
def dispatch? (s : Simulation) : Option Simulation :=
  s.loop.dispatch?.map fun (e, loop) => { s with loop }.wake (.worker e.number)

/-- The loop hears of a processed element. -/
def absorb? (s : Simulation) : Option Simulation := s.loop.absorb?.map s.adopt

/-- The loop's clock ticks. -/
def tick (s : Simulation) : Simulation :=
  { s with tickAt := s.loop.nextTick s.tickAt s.now, tickArmed := false }.adopt
    (s.loop.tick s.now)

/-- The loop is stopped. -/
def stopLoop (s : Simulation) : Simulation :=
  { s with
    loop := s.loop.stop
    deadline := s.now + s.run.config.drainTimeout
    deadlineArmed := false }

/-- The loop gives up the elements that are not finished. -/
def timeOut (s : Simulation) : Simulation :=
  { s with queue := [], granted := [] }.adopt (s.loop.timeOut fun _ => false)

/-- One step of the loop while it serves. -/
def serve (s : Simulation) : Simulation :=
  if s.stopped then s.stopLoop
  else
    match s.dispatch?, s.absorb? with
    | some s, _ => s
    | none, some s => s
    | none, none =>
      if s.tickAt ≤ s.now then s.tick
      else if s.tickArmed then s.pause
      else ({ s with tickArmed := true }.wakeAt s.tickAt .loop).pause

/-- One step of the loop while it waits for the elements that it has fetched. -/
def drain (s : Simulation) : Simulation :=
  match s.loop.drained? with
  | some loop => { s with loop }
  | none =>
    match s.dispatch?, s.absorb? with
    | some s, _ => s
    | none, some s => s
    | none, none =>
      if s.deadline ≤ s.now then s.timeOut
      else if s.deadlineArmed then s.pause
      else ({ s with deadlineArmed := true }.wakeAt s.deadline .loop).pause

/-- One step of the loop. -/
def stepLoop (s : Simulation) : Simulation :=
  match s.loop.procedure? s.keyOf with
  | some progress => s.loopProcedure progress
  | none =>
    match s.loop.state with
    | .serving => s.serve
    | .draining => s.drain
    | .closing => s.adopt s.loop.close
    | _ => s.pause

/-! ### Workers and handlers -/

/-- A worker is given to the first element that waits for one, or is free. -/
def releaseWorker (s : Simulation) : Simulation :=
  match s.queue with
  | n :: rest => { s with queue := rest, granted := n :: s.granted }.wake (.worker n)
  | [] => { s with free := s.free + 1 }

/-- The handler of an element is called. -/
def callHandler (e : Element) (s : Simulation) : Simulation :=
  ({ s.withRun (s.run.begin e.number) with
    handling := s.handling ++ [(e, false)] }.wake (.handler e.number)).pause

/-- One step of a worker. -/
def stepWorker (number : Nat) (s : Simulation) : Simulation :=
  match s.run.assignment? number with
  | some ⟨e, .waiting⟩ =>
    if s.granted.contains number then
      { s with granted := s.granted.filter (· ≠ number) }.callHandler e
    else if 0 < s.free then { s with free := s.free - 1 }.callHandler e
    else { s with queue := s.queue ++ [number] }.pause
  | some ⟨e, .settled outcome⟩ =>
    let (warnings, run) := (s.run.announce e outcome).complete e outcome
    let run := run.count number outcome
    ((((s.withRun run).report (outcome.warning?.toList ++ warnings)).releaseWorker).wake
      .loop).pause
  | _ => s.pause

/-- The handler of an element finishes. -/
def finishHandler (e : Element) (s : Simulation) : Simulation :=
  let (outcome, handler) := s.handler.finish e
  let s := { s with
    handler
    handling := s.handling.filter fun (h : Element × Bool) => h.1.number ≠ e.number }
  match s.run.assignment? e.number with
  | some _ => ((s.withRun (s.run.settle e.number outcome)).wake (.worker e.number)).pause
  | none => s.pause

/-- One step of a handler. -/
def stepHandler (number : Nat) (s : Simulation) : Simulation :=
  match s.handling.find? fun h => h.1.number = number with
  | some (e, false) =>
    let (delay, handler) := s.handler.begin e
    let s := { s with handler }
    if delay = 0 then s.finishHandler e
    else
      ({ s with
        handling := s.handling.map fun (h : Element × Bool) =>
          if h.1.number = number then (e, true) else h }.wakeAt
        (s.now + delay) (.handler number)).pause
  | some (e, true) => s.finishHandler e
  | none => s.pause

/-! ### The observer -/

/-- The observer notes what it has found. -/
def found (reply : TimelineReply) (s : Simulation) : Simulation :=
  { s with findings := s.findings ++ [reply], observer := .idle }

/-- The observer stops the pipeline. -/
def stop (s : Simulation) : Simulation := { s with stopped := true }.wake .loop

/-- The observer waits until a time. -/
def observeAt (time : Nat) (s : Simulation) : Simulation :=
  ({ s with observerUntil := some time }.wakeAt time .observer).pause

/-- How long the observer waits before it asks the handler again. -/
def pollPause : Nat := 10

/-- One step of the observer that is not held up. -/
def observe (s : Simulation) : Simulation :=
  match s.observer with
  | .idle =>
    match s.agenda with
    | [] => { s.stop with observer := .joining }
    | next :: rest =>
      let s := { s with agenda := rest }
      match next with
      | .take step => { s with observer := .taking step .fresh false }
      | .stats => s.found (.stats s.run.stats)
      | .handled => s.found (.handled s.handler.handled)
      | .waitCount count ms => { s with observer := .counting count (s.now + ms) }
      | .cancel => s.stop.found .cancelled
  | .taking step state late =>
    let (turn, warnings, w) := step.turn late state s.shared
    let s := { s with shared := w }.report warnings
    match turn with
    | .goesOn state => { s with observer := .taking step state false }
    | .waits ms =>
      let s := { s with observer := .taking step state true }
      if ms = 0 then s else s.observeAt (s.now + ms)
    | .yields state => { s with observer := .taking step state false }.yield .observer
    | .ends reply => s.found (.taken reply)
  | .counting count deadline =>
    if count ≤ s.handler.handled then s.found (.reached true)
    else if deadline ≤ s.now then s.found (.reached false)
    else s.observeAt (s.now + pollPause)
  | .joining =>
    if s.loop.isEnded then { s with observer := .done } else s.pause
  | .done => s.pause

/-- One step of the observer. -/
def stepObserver (s : Simulation) : Simulation :=
  match s.observerUntil with
  | some time => if s.now < time then s.pause else { s with observerUntil := none }.observe
  | none => s.observe

/-! ### The run -/

/-- One step of whoever's turn it is. -/
def step (s : Simulation) : Simulation :=
  match s.active with
  | none => s.choose
  | some .loop => s.stepLoop
  | some (.worker number) => s.stepWorker number
  | some (.handler number) => s.stepHandler number
  | some .observer => s.stepObserver

/-- Takes steps until the observer is done. -/
def finish : (fuel : Nat) → Simulation → Simulation
  | 0, s => s
  | fuel + 1, s =>
    match s.observer with
    | .done => s
    | _ => finish fuel s.step

/-- A run that is about to begin. -/
def start (config : PipelineConfig) (keyOf : Event → Uuid) (handler : Handler)
    (agenda : List TimelineStep) (stopped : Bool) (shared : FaultyStore)
    (own : Option FaultyStore) : Simulation :=
  { shared, own, keyOf, loop := .start config, handler, stopped, free := config.workers,
    agenda }

end Simulation

end EventJournal
