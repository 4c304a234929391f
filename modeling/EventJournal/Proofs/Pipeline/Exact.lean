import EventJournal.Proofs.Pipeline.Ledger
import EventJournal.Proofs.Pipeline.Loop
import EventJournal.Proofs.Pipeline.Rows

/-!
# Runs of which everything is known

Beside a run stands a record of what was seen of it (`EventJournal.Watch`), which nothing of it
reads: the row that it took up, the events that it has fetched, the outcomes with which its handlers
have returned, and those that it has counted. As long as the run has not given up on its elements
it is *exact* (`EventJournal.PipelineLoop.Exact`): its ledger is that of the record, the outcomes
of its handlings are those with which handlers have returned, it is no more than the set number of
elements ahead of its frontier, and the latest row names the event at which the current stretch
begins, or is the one that the run took up.

| what happens | to | theorem |
|---|---|---|
| a step of a procedure | the loop and the store | `EventJournal.PipelineLoop.Proceeds.exact` |
| a tick, a message, the stop | the loop | `EventJournal.PipelineLoop.Exact.react` |
| a step of a worker | the run | `EventJournal.PipelineLoop.Exact.work` |
| a call of another | the store | `EventJournal.PipelineLoop.Exact.mono` |

That a row is placed where it will be the latest (`EventJournal.PipelineLoop.Placed`) is known of
every run, exact or not.
-/

namespace EventJournal

/-! ### What is seen of a run -/

/-- **What was seen of a run.** -/
structure Watch where
  /-- The latest row when the run asked for it. -/
  resumed : Option Checkpoint := none
  /-- The events that the run has fetched, in this order. -/
  fetched : List Event := []
  /-- The elements whose handlers have returned, with the outcomes, in this order. -/
  returned : List (Element × Outcome) := []
  /-- The elements whose outcome it has counted, in this order. -/
  counted : List (Element × Outcome) := []
  /-- Whether it has given up on its elements. -/
  timedOut : Bool := false
  /-- Whether the row that it tried last to write was stored, if it has tried. -/
  lastWrite : Option Bool := none

namespace Watch

/-- What is seen of the result of a fetch. -/
def fetch (result : Except LogError (List Event)) (w : Watch) : Watch :=
  match result with
  | .ok events => { w with fetched := w.fetched ++ events }
  | .error _ => w

/-- What is seen of the result of the writing of a row. -/
def mark (result : Except StoreError Unit) (w : Watch) : Watch :=
  { w with lastWrite := some result.isOk }

/-- What is seen when the loop takes a step of its procedure. -/
def proceed (l : PipelineLoop) (s : Store) (w : Watch) : Watch :=
  match l.state with
  | .resuming .asking => { w with resumed := s.latestCheckpoint l.run.config.name }
  | .fetching reading => (reading.next.result?.map fun result => w.fetch result).getD w
  | .marking b marking _ => ((marking.next b).result?.map fun result => w.mark result).getD w
  | _ => w

/-- What is seen when the loop does something without the store. -/
def react (move : LoopMove) (l : PipelineLoop) (w : Watch) : Watch :=
  match move, l.state with
  | .timeOut _, .draining => { w with timedOut := true }
  | _, _ => w

@[simp] theorem react_fetched (move : LoopMove) (l : PipelineLoop) (w : Watch) :
    (w.react move l).fetched = w.fetched := by
  unfold react
  split <;> rfl

@[simp] theorem react_lastWrite (move : LoopMove) (l : PipelineLoop) (w : Watch) :
    (w.react move l).lastWrite = w.lastWrite := by
  unfold react
  split <;> rfl

/-- What is seen when a worker goes on; if the handler runs, it returns with the outcome. -/
def work (number : Nat) (outcome : Outcome) (l : PipelineLoop) (w : Watch) : Watch :=
  { w with
    returned := w.returned ++ (l.run.settles? number outcome).toList
    counted := w.counted ++ (l.run.counts? number).toList }

/-- Only the row that a run takes up is seen of the search for its first position. -/
theorem proceed_resuming {l : PipelineLoop} {search : Resuming} (hs : l.state = .resuming search)
    (hne : search ≠ .asking) (s : Store) (w : Watch) : w.proceed l s = w := by
  rw [proceed, hs]
  cases search with
  | asking => exact absurd rfl hne
  | _ => rfl

/-- What was given up stays given up. -/
theorem timedOut_of_react {move : LoopMove} {l : PipelineLoop} {w : Watch}
    (h : (w.react move l).timedOut = false) : w.timedOut = false := by
  unfold react at h
  split at h
  · exact nomatch h
  · exact h

/-- The element with a number was handled with success. -/
def Succeeded (w : Watch) (number : Nat) : Prop :=
  ∃ c ∈ w.counted, c.2.isSuccess = true ∧ c.1.number = number

/-- **The latest row of a pipeline names the event with a number**, or is the one that the run took
up if the number is zero. -/
def Names (name : String) (s : Store) (w : Watch) : Nat → Prop
  | 0 => s.latestCheckpoint name = w.resumed
  | n + 1 => ∃ e row, w.fetched[n]? = some e ∧ s.latestCheckpoint name = some row ∧
      row.event = e.id

variable {name : String} {s s' : Store} {w : Watch} {n : Nat}

theorem Names.mono (h : w.Names name s n)
    (hlatest : s'.latestCheckpoint name = s.latestCheckpoint name) : w.Names name s' n := by
  cases n with
  | zero => exact hlatest.trans h
  | succ n =>
    obtain ⟨e, row, he, hrow, hevent⟩ := h
    exact ⟨e, row, he, hlatest.trans hrow, hevent⟩

theorem names_of_row {e : Event} {row : Checkpoint} (he : w.fetched[n - 1]? = some e)
    (hrow : s.latestCheckpoint name = some row) (hevent : row.event = e.id) (hn : 0 < n) :
    w.Names name s n := by
  obtain ⟨n, rfl⟩ := Nat.exists_eq_succ_of_ne_zero hn.ne'
  exact ⟨e, row, he, hrow, hevent⟩

theorem Names.fetched (h : w.Names name s n) (events : List Event) :
    { w with fetched := w.fetched ++ events }.Names name s n := by
  cases n with
  | zero => exact h
  | succ n =>
    obtain ⟨e, row, he, hrow⟩ := h
    refine ⟨e, row, ?_, hrow⟩
    have hlt := (List.getElem?_eq_some_iff.mp he).1
    exact (List.getElem?_append_left hlt).trans he

end Watch

/-! ### Steps of the procedures -/

/-- A search that has come to a result has asked for the latest row. -/
theorem Resuming.ne_asking {search : Resuming} {pipeline : String}
    {result : Except PipelineError (Option Nat)}
    (hr : (search.next pipeline).result? = some result) : search ≠ .asking := by
  rintro rfl
  cases hr

namespace PipelineLoop

/-- **What a step of a loop's procedure can lead to**: the loop, the store and what was seen of the
run. -/
inductive Proceeds (keyOf : Event → Uuid) (fault : Option StoreError) (s : Store) (w : Watch)
    (l : PipelineLoop) : PipelineLoop → Store → Watch → Prop
  /-- It asks for the latest row. -/
  | ask (hs : l.state = .resuming .asking) (search : Resuming)
    (hsearch : (Resuming.asking.next l.run.config.name).step fault .asking s = (search, s)) :
    Proceeds keyOf fault s w l (l.goTo (.resuming search)) s
      { w with resumed := s.latestCheckpoint l.run.config.name }
  /-- It goes on looking for its first position. -/
  | seek {search : Resuming} (hs : l.state = .resuming search) (hne : search ≠ .asking)
    (hr : (search.next l.run.config.name).result? = none) :
    Proceeds keyOf fault s w l
      (l.goTo (.resuming ((search.next l.run.config.name).step fault search s).1)) s w
  /-- It has found its first position. -/
  | begin {search : Resuming} (hs : l.state = .resuming search) {position : Option Nat}
    (hr : (search.next l.run.config.name).result? = some (.ok position)) :
    Proceeds keyOf fault s w l ⟨.start l.run.config position, .serving⟩ s w
  /-- It has not found its first position. -/
  | refuse {search : Resuming} (hs : l.state = .resuming search) {e : PipelineError}
    (hr : (search.next l.run.config.name).result? = some (.error e)) :
    Proceeds keyOf fault s w l (l.goTo (.ended (.error e))) s w
  /-- It goes on fetching a batch. -/
  | read {reading : Reading} (hs : l.state = .fetching reading)
    (hr : reading.next.result? = none) :
    Proceeds keyOf fault s w l (l.goTo (.fetching (reading.next.step fault reading s).1)) s w
  /-- It has fetched a batch. -/
  | fetch {reading : Reading} (hs : l.state = .fetching reading) {events : List Event}
    (hr : reading.next.result? = some (.ok events)) :
    Proceeds keyOf fault s w l ⟨l.run.accept keyOf events, .serving⟩ s
      { w with fetched := w.fetched ++ events }
  /-- It has not fetched a batch. -/
  | miss {reading : Reading} (hs : l.state = .fetching reading) {e : LogError}
    (hr : reading.next.result? = some (.error e)) :
    Proceeds keyOf fault s w l (l.goTo .serving) s w
  /-- It goes on writing a row. -/
  | write {b : Bookmark} {marking : Marking} {isLast : Bool}
    (hs : l.state = .marking b marking isLast) (hr : (marking.next b).result? = none) :
    Proceeds keyOf fault s w l
      (l.goTo (.marking b ((marking.next b).step fault marking s).1 isLast))
      ((marking.next b).step fault marking s).2 w
  /-- It has written a row, or has not. -/
  | mark {b : Bookmark} {marking : Marking} {isLast : Bool}
    (hs : l.state = .marking b marking isLast) {result : Except StoreError Unit}
    (hr : (marking.next b).result? = some result) :
    Proceeds keyOf fault s w l (l.marked isLast result).loop s (w.mark result)
  /-- It is at no procedure. -/
  | idle (h : l.procedure? keyOf = none) : Proceeds keyOf fault s w l l s w

/-- **Whatever procedure a loop is at**, a step of it does one of these. -/
theorem proceeds_proceed (keyOf : Event → Uuid) (fault : Option StoreError) (s : Store)
    (w : Watch) (l : PipelineLoop) :
    l.Proceeds keyOf fault s w (l.proceed keyOf fault s).1 (l.proceed keyOf fault s).2
      (w.proceed l s) := by
  cases hl : l.state with
  | resuming search =>
    rw [proceed_resuming keyOf fault s hl]
    by_cases hne : search = .asking
    · subst hne
      rw [Watch.proceed, hl]
      have hstore := (Resuming.next_looks l.run.config.name .asking).store_eq fault .asking s
      dsimp only
      rw [hstore]
      exact Proceeds.ask hl _ (Prod.ext rfl hstore)
    · rw [Watch.proceed_resuming hl hne s w]
      cases hr : (search.next l.run.config.name).result? with
      | none =>
        dsimp only
        rw [(Resuming.next_looks _ search).store_eq]
        exact .seek hl hne hr
      | some result =>
        cases result with
        | error e => exact .refuse hl hr
        | ok position => exact .begin hl hr
  | fetching reading =>
    rw [proceed_fetching keyOf fault s hl, Watch.proceed, hl]
    dsimp only
    cases hr : reading.next.result? with
    | none =>
      dsimp only
      rw [reading.next_looks.store_eq]
      exact .read hl hr
    | some result =>
      cases result with
      | error e => exact .miss hl hr
      | ok events => exact .fetch hl hr
  | marking b marking isLast =>
    rw [proceed_marking keyOf fault s hl, Watch.proceed, hl]
    dsimp only
    cases hr : (marking.next b).result? with
    | none => exact .write hl hr
    | some result => exact .mark hl hr
  | _ =>
    have hnone : l.procedure? keyOf = none := by simp only [procedure?, hl]
    rw [proceed_eq_self keyOf fault s hnone, Watch.proceed, hl]
    exact .idle hnone

section Proceeds

variable {keyOf : Event → Uuid} {fault : Option StoreError} {s s' : Store} {w w' : Watch}
  {l l' : PipelineLoop}

/-- No step of a procedure gives up on elements. -/
theorem Proceeds.timedOut_eq (h : l.Proceeds keyOf fault s w l' s' w') :
    w'.timedOut = w.timedOut := by
  cases h <;> rfl

/-- No step of a procedure stores events. -/
theorem Proceeds.events_eq (h : l.Proceeds keyOf fault s w l' s' w') :
    s'.events = s.events := by
  cases h with
  | @write b marking => exact ((marking.next_calls b).noted fault marking s).events
  | _ => rfl

end Proceeds

end PipelineLoop

/-! ### Exact runs -/

namespace PipelineConfig

variable {config : PipelineConfig}

/-- Settings that make sense are not zero where it matters. -/
theorem pos_of_fault? (h : config.fault? = none) :
    0 < config.batchSize ∧ 0 < config.checkpointThreshold ∧ 0 < config.maxInFlight := by
  rw [fault?] at h
  repeat
    split at h
    · exact nomatch h
  omega

end PipelineConfig

theorem PipelineRun.limit?_eq_some {r : PipelineRun} {limit : Nat} (h : r.limit? = some limit) :
    0 < r.room ∧ limit = min r.config.batchSize r.room := by
  rw [limit?] at h
  split at h
  · cases h
  · next hroom => exact ⟨Nat.pos_of_ne_zero hroom, (Option.some.inj h).symm⟩

/-- A fetch asks for no more than there is room for. -/
theorem PipelineRun.limit?_le_room {r : PipelineRun} {limit : Nat} (h : r.limit? = some limit) :
    limit ≤ r.room := by
  obtain ⟨-, rfl⟩ := limit?_eq_some h
  exact min_le_right _ _

/-- **What a fetch may bring** when there is room for so many events. -/
def Reading.Fits (room : Nat) : Reading → Prop :=
  Brings (fun _ limit => limit ≤ room) fun events => events.length ≤ room

theorem Reading.Fits.step {room : Nat} {reading : Reading} (h : reading.Fits room) (s : Store)
    (fault : Option StoreError) : (reading.next.step fault reading s).1.Fits room := by
  refine Brings.step h (fun position limit hle => ?_) fault
  have hlimit : (s.events.after position limit).length ≤ limit := by
    cases position <;> exact List.length_take_le _ _
  exact hlimit.trans hle

/-- A loop that notes its progress. -/
def LoopState.isMarking : LoopState → Bool
  | marking .. => true
  | _ => false

/-- **What a loop is at fits its run** and what was seen of it. -/
def LoopState.Fits (w : Watch) (r : PipelineRun) : LoopState → Prop
  | resuming _ => w.fetched = [] ∧ w.counted = []
  | fetching reading => reading.Fits r.room
  | marking b _ isLast => r.reached? = some b.event ∧ 0 < r.frontier.length ∧
      (isLast = true → w.counted.length = w.fetched.length ∧ r.processed = [])
  | closing => w.counted.length = w.fetched.length
  | ended (.ok stats) => stats = r.stats ∧ w.counted.length = w.fetched.length ∧
      r.processed = [] ∧ (w.lastWrite ≠ some false → r.frontier.length = 0)
  | _ => True

/-- While an element has yet to be counted, what a loop is at does not depend on the workers. -/
theorem LoopState.Fits.work {w : Watch} {l : PipelineLoop} (h : l.state.Fits w l.run)
    (hlength : w.counted.length ≠ w.fetched.length) (number : Nat) (outcome : Outcome) :
    l.state.Fits (w.work number outcome l) (l.run.work number outcome) := by
  have hsame := PipelineRun.work_sameProgress number outcome l.run
  cases hs : l.state with
  | resuming search =>
    rw [hs] at h
    rw [h.1, h.2] at hlength
    exact absurd rfl hlength
  | fetching reading =>
    rw [hs] at h
    have hroom : reading.Fits (l.run.work number outcome).room := hsame.room.symm ▸ h
    exact hroom
  | marking b marking isLast =>
    rw [hs] at h
    obtain ⟨hreached, hpos, hlast⟩ := h
    refine ⟨hsame.reached?.trans hreached, ?_, fun his => absurd (hlast his).1 hlength⟩
    rw [hsame.frontier]
    exact hpos
  | closing =>
    rw [hs] at h
    exact absurd h hlength
  | ended result =>
    rw [hs] at h
    cases result with
    | error e => trivial
    | ok stats => exact absurd h.2.1 hlength
  | _ => trivial

namespace PipelineLoop

/-- The number of the event that the latest row names. -/
def noted (l : PipelineLoop) : Nat :=
  match l.state with
  | .marking _ (.done (.ok _)) _ => l.run.frontier.position
  | _ => l.run.frontier.start

/-- **A run of which everything is known** by what was seen of it. -/
structure Exact (keyOf : Event → Uuid) (name : String) (s : Store) (w : Watch)
    (l : PipelineLoop) : Prop where
  /-- The pipeline. -/
  name_eq : l.run.config.name = name
  /-- The settings make sense. -/
  valid : l.run.config.fault? = none
  /-- Where the elements are. -/
  ledger : l.run.Ledger keyOf w.fetched w.counted
  /-- The outcomes are those with which handlers have returned. -/
  returned_perm : w.returned.Perm (Handling.outcomes (l.run.handlings w.counted))
  /-- The counter of fetched events. -/
  stats_fetched : l.run.stats.fetched = w.fetched.length
  /-- The run is not too far ahead of its frontier. -/
  window : w.fetched.length ≤ l.run.frontier.position + l.run.config.maxInFlight
  /-- What the loop is at. -/
  fits : l.state.Fits w l.run
  /-- The latest row. -/
  names : l.state ≠ .resuming .asking → w.Names name s l.noted

variable {keyOf : Event → Uuid} {name : String} {fault : Option StoreError} {s s' : Store}
  {w w' : Watch} {l l' : PipelineLoop}

theorem noted_of_not_marking (h : l.state.isMarking = false) :
    l.noted = l.run.frontier.start := by
  rw [noted]
  split
  · next hs =>
    rw [hs] at h
    exact nomatch h
  · rfl

theorem noted_of_isStored {b : Bookmark} {marking : Marking} {isLast : Bool}
    (hs : l.state = .marking b marking isLast) (h : marking.IsStored) :
    l.noted = l.run.frontier.position := by
  rw [noted, hs]
  cases marking with
  | done result =>
    cases result with
    | ok _ => rfl
    | error e => exact absurd h id
  | _ => exact absurd h id

theorem noted_of_not_isStored {b : Bookmark} {marking : Marking} {isLast : Bool}
    (hs : l.state = .marking b marking isLast) (h : ¬marking.IsStored) :
    l.noted = l.run.frontier.start := by
  rw [noted, hs]
  cases marking with
  | done result =>
    cases result with
    | ok _ => exact absurd trivial h
    | error e => rfl
  | _ => rfl

theorem exact_start (keyOf : Event → Uuid) {config : PipelineConfig} (h : config.fault? = none)
    (s : Store) : (start config).Exact keyOf config.name s {} where
  name_eq := rfl
  valid := h
  ledger := PipelineRun.ledger_start keyOf config none
  returned_perm := .refl _
  stats_fetched := rfl
  window := Nat.zero_le _
  fits := ⟨rfl, rfl⟩
  names hs := absurd rfl hs

/-- **Others may change the store**, but not the latest row of the pipeline. -/
theorem Exact.mono (h : l.Exact keyOf name s w)
    (hlatest : s'.latestCheckpoint name = s.latestCheckpoint name) : l.Exact keyOf name s' w :=
  { h with names := fun hs => (h.names hs).mono hlatest }

theorem Exact.names_start (h : l.Exact keyOf name s w)
    (hs : l.state = .serving ∨ l.state = .draining ∨ l.state = .closing) :
    w.Names name s l.run.frontier.start := by
  have hnames := h.names (by rcases hs with hs | hs | hs <;> simp [hs])
  have hidle : l.state.isMarking = false := by
    rcases hs with hs | hs | hs <;> exact congrArg LoopState.isMarking hs
  rwa [noted_of_not_marking hidle] at hnames

/-- What is left to see when a loop has come to another thing, or its run has gone on. -/
theorem Exact.change (h : l.Exact keyOf name s w) (hconfig : l'.run.config = l.run.config)
    (hledger : l'.run.Ledger keyOf w.fetched w.counted)
    (houtcomes : Handling.outcomes (l'.run.handlings w.counted) =
      Handling.outcomes (l.run.handlings w.counted))
    (hstats : l'.run.stats.fetched = l.run.stats.fetched)
    (hposition : l.run.frontier.position ≤ l'.run.frontier.position)
    (hfits : l'.state.Fits w l'.run) (hnames : w.Names name s l'.noted) :
    l'.Exact keyOf name s w where
  name_eq := by rw [hconfig, h.name_eq]
  valid := by rw [hconfig, h.valid]
  ledger := hledger
  returned_perm := houtcomes ▸ h.returned_perm
  stats_fetched := hstats.trans h.stats_fetched
  window := by
    rw [hconfig]
    exact h.window.trans (Nat.add_le_add_right hposition _)
  fits := hfits
  names _ := hnames

/-- The loop comes to another thing. -/
theorem Exact.goTo (h : l.Exact keyOf name s w) {state : LoopState}
    (hfits : state.Fits w l.run) (hnames : w.Names name s (l.goTo state).noted) :
    (l.goTo state).Exact keyOf name s w :=
  h.change rfl h.ledger rfl rfl le_rfl hfits hnames

/-- The run goes on while the loop serves or drains. -/
theorem Exact.withRun (h : l.Exact keyOf name s w) (hs : l.state = .serving ∨ l.state = .draining)
    {run : PipelineRun} (hconfig : run.config = l.run.config)
    (hledger : run.Ledger keyOf w.fetched w.counted)
    (houtcomes : Handling.outcomes (run.handlings w.counted) =
      Handling.outcomes (l.run.handlings w.counted))
    (hstats : run.stats.fetched = l.run.stats.fetched)
    (hposition : l.run.frontier.position ≤ run.frontier.position)
    (hstart : run.frontier.start = l.run.frontier.start) :
    { l with run }.Exact keyOf name s w := by
  refine h.change hconfig hledger houtcomes hstats hposition ?_ ?_
  · rcases hs with hs | hs <;> (rw [hs]; trivial)
  · have hidle : { l with run }.state.isMarking = false := by
      rcases hs with hs | hs <;> exact congrArg LoopState.isMarking hs
    rw [noted_of_not_marking hidle, hstart]
    exact h.names_start (hs.imp_right Or.inl)

/-- **The loop begins to note its progress**, and finds the event to be noted. -/
theorem Exact.beginMarking (h : l.Exact keyOf name s w)
    (hnames : w.Names name s l.run.frontier.start) (hlength : 0 < l.run.frontier.length)
    {isLast : Bool}
    (hlast : isLast = true → w.counted.length = w.fetched.length ∧ l.run.processed = []) :
    (l.beginMarking isLast).loop.Exact keyOf name s w := by
  obtain ⟨e, -, hreached⟩ := h.ledger.reached_eq hlength
  simp only [PipelineLoop.beginMarking, hreached]
  exact h.goTo ⟨hreached, hlength, hlast⟩ hnames

/-! ### Without the store -/

/-- A batch is fetched that fits into the room that there is. -/
theorem Exact.fetch (h : l.Exact keyOf name s w) (hs : l.state = .serving) {limit : Nat}
    (hlimit : l.run.limit? = some limit) :
    Exact keyOf name s w ⟨l.run.release, .fetching (.after l.run.position limit)⟩ := by
  have hroom : limit ≤ l.run.room := PipelineRun.limit?_le_room hlimit
  exact h.change rfl { h.ledger with } rfl rfl le_rfl hroom (h.names_start (Or.inl hs))

theorem Exact.dispatch (h : l.Exact keyOf name s w)
    (hs : l.state = .serving ∨ l.state = .draining) {e : Element} {run : PipelineRun}
    (hrun : l.run.dispatch? = some (e, run)) : { l with run }.Exact keyOf name s w := by
  have hsame := PipelineRun.dispatch?_sameProgress hrun
  refine h.withRun hs hsame.config (h.ledger.dispatch hrun)
    (PipelineRun.outcomes_dispatch hrun _) hsame.stats_fetched ?_ ?_
  · rw [hsame.frontier]
  · rw [hsame.frontier]

theorem Exact.absorb (h : l.Exact keyOf name s w)
    (hs : l.state = .serving ∨ l.state = .draining) {run : PipelineRun}
    (hrun : l.run.absorb? = some run) : { l with run }.Exact keyOf name s w := by
  obtain ⟨hconfig, hstats, -, hassigned, hstart, hle⟩ := PipelineRun.absorb?_frame hrun
  have houtcomes := PipelineRun.outcomes_congr hassigned w.counted
  exact h.withRun hs hconfig (h.ledger.absorb hrun) houtcomes (congrArg Stats.fetched hstats) hle
    hstart

/-- Progress that is due has been made. -/
theorem Exact.length_pos_of_isDue (h : l.Exact keyOf name s w) (hdue : l.run.isDue = true) :
    0 < l.run.frontier.length :=
  (PipelineConfig.pos_of_fault? h.valid).2.1.trans_le (of_decide_eq_true hdue)

/-- The loop finds that all its elements have been handled. -/
theorem Exact.cease (h : l.Exact keyOf name s w) (hs : l.state = .draining)
    (hsettled : l.run.isSettled = true) : (l.goTo .closing).Exact keyOf name s w :=
  h.goTo (h.ledger.isSettled_iff.mp hsettled) (h.names_start (Or.inr (Or.inl hs)))

/-- **The loop hears of all**, and notes its progress if there is any. -/
theorem Exact.close (h : l.Exact keyOf name s w) (hs : l.state = .closing) :
    l.close.loop.Exact keyOf name s w := by
  have hsettled := h.fits
  rw [hs] at hsettled
  obtain ⟨-, hstart⟩ := PipelineRun.tight_foldl_finish h.ledger.tight l.run.processed
  have hle := PipelineRun.position_le_foldl_finish l.run.processed l.run.frontier
  have hnames := h.names_start (Or.inr (Or.inr hs))
  rw [← hstart] at hnames
  have hexact : { l with run := l.run.absorbAll }.Exact keyOf name s w := by
    refine h.change rfl h.ledger.absorbAll rfl rfl hle ?_ ?_
    · rw [hs]
      exact hsettled
    · have hidle : { l with run := l.run.absorbAll }.state.isMarking = false :=
        congrArg LoopState.isMarking hs
      rw [noted_of_not_marking hidle]
      exact hnames
  rw [PipelineLoop.close]
  dsimp only
  split
  · next hlength => exact hexact.beginMarking hnames hlength fun _ => ⟨hsettled, rfl⟩
  · next hlength =>
    refine hexact.goTo ⟨rfl, hsettled, rfl, fun _ => ?_⟩ hnames
    exact Nat.eq_zero_of_not_pos hlength

/-- **Whatever the loop does without the store**, its run is exact as long as it has not given up
on its elements. -/
theorem Exact.react (h : l.Exact keyOf name s w) {move : LoopMove}
    (hw : (w.react move l).timedOut = false) :
    (l.react move).Exact keyOf name s (w.react move l) := by
  have hsame : w.react move l = w := by
    unfold Watch.react at hw ⊢
    split
    · next hs =>
      rw [hs] at hw
      exact nomatch hw
    · rfl
  rw [hsame]
  have hreacts := l.reacts_react move
  generalize l.react move = l' at hreacts ⊢
  cases hreacts with
  | hold hs => exact h.withRun (Or.inl hs) rfl { h.ledger with } rfl rfl le_rfl rfl
  | fetch hs now hlimit => exact h.fetch hs hlimit
  | dispatch hs hrun => exact h.dispatch hs hrun
  | absorb hs hrun => exact h.absorb hs hrun
  | note hs hrun hdue =>
    have hexact := h.absorb (Or.inl hs) hrun
    exact hexact.beginMarking (hexact.names_start (Or.inl hs)) (hexact.length_pos_of_isDue hdue)
      Bool.false_ne_true.elim
  | stop hs => exact h.goTo trivial (h.names_start (Or.inl hs))
  | cease hs hsettled => exact h.cease hs hsettled
  | timeOut hs => simp [Watch.react, hs] at hw
  | close hs => exact h.close hs
  | idle => exact h

/-! ### Workers -/

/-- **A worker goes on**, whatever the loop is at. -/
theorem Exact.work (h : l.Exact keyOf name s w) (number : Nat) (outcome : Outcome) :
    (l.work number outcome).Exact keyOf name s (w.work number outcome l) := by
  by_cases hlength : w.counted.length = w.fetched.length
  · -- all elements have been counted, so that there is no worker to go on
    have hassigned := (h.ledger.of_length_eq hlength).2.1
    rw [PipelineLoop.work, PipelineRun.work_eq_self hassigned, Watch.work,
      PipelineRun.counts?_eq_none hassigned, PipelineRun.settles?_eq_none hassigned,
      Option.toList_none, List.append_nil, List.append_nil]
    exact h
  · have hsame := PipelineRun.work_sameProgress number outcome l.run
    have hnoted : (l.work number outcome).noted = l.noted := by
      rw [noted, PipelineLoop.work, hsame.frontier]
      rfl
    refine ⟨?_, ?_, h.ledger.work number outcome, ?_, ?_, ?_, ?_, fun hs => ?_⟩
    · exact (congrArg PipelineConfig.name hsame.config).trans h.name_eq
    · exact (congrArg PipelineConfig.fault? hsame.config).trans h.valid
    · have houtcomes := h.ledger.outcomes_work number outcome
      exact (h.returned_perm.append_right _).trans houtcomes.symm
    · exact hsame.stats_fetched.trans h.stats_fetched
    · change w.fetched.length ≤ (l.run.work number outcome).frontier.position +
        (l.run.work number outcome).config.maxInFlight
      rw [hsame.frontier, hsame.config]
      exact h.window
    · exact h.fits.work hlength number outcome
    · rw [hnoted]
      exact h.names hs

/-! ### Where a row is placed -/

/-- **A loop whose row will be the latest** when it is stored. -/
structure Placed (name : String) (s : Store) (l : PipelineLoop) : Prop where
  /-- The pipeline. -/
  name_eq : l.run.config.name = name
  /-- The row that is to be stored is one of the pipeline, and is placed behind the others. -/
  marking : ∀ b marking isLast, l.state = .marking b marking isLast →
    b.pipeline = name ∧ marking.Placed name s

theorem placed_start (config : PipelineConfig) (s : Store) :
    (start config).Placed config.name s := ⟨rfl, fun _ _ _ hs => nomatch hs⟩

theorem Placed.mono (h : l.Placed name s) (hs : s.Spares name s') : l.Placed name s' where
  name_eq := h.name_eq
  marking b marking isLast hm :=
    have ⟨hname, hplaced⟩ := h.marking b marking isLast hm
    ⟨hname, hplaced.mono hs⟩

/-- A loop that does not note its progress. -/
theorem placed_of_not_marking (hname : l.run.config.name = name)
    (hs : l.state.isMarking = false) : l.Placed name s := by
  refine ⟨hname, fun b marking isLast hm => ?_⟩
  rw [hm] at hs
  exact nomatch hs

/-- The row of a loop that begins to note its progress has no place yet. -/
theorem placed_beginMarking (hname : l.run.config.name = name)
    (isLast : Bool) : (l.beginMarking isLast).loop.Placed name s := by
  rw [PipelineLoop.beginMarking]
  split
  · refine ⟨hname, fun b m last hm => ?_⟩
    cases hm
    exact ⟨hname, trivial⟩
  · refine placed_of_not_marking ?_ ?_
    · dsimp only
      split <;> exact hname
    · dsimp only
      split <;> rfl

/-- A loop that serves or drains goes on with its run. -/
theorem Placed.withRun (h : l.Placed name s) (hs : l.state = .serving ∨ l.state = .draining)
    {run : PipelineRun} (hconfig : run.config = l.run.config) :
    { l with run }.Placed name s :=
  placed_of_not_marking ((congrArg PipelineConfig.name hconfig).trans h.name_eq)
    (by rcases hs with hs | hs <;> exact congrArg LoopState.isMarking hs)

/-- **Whatever the loop does without the store** leaves its row placed. -/
theorem Placed.react (h : l.Placed name s) (move : LoopMove) : (l.react move).Placed name s := by
  have hreacts := l.reacts_react move
  generalize l.react move = l' at hreacts ⊢
  cases hreacts with
  | hold hs => exact h.withRun (Or.inl hs) rfl
  | dispatch hs hrun => exact h.withRun hs (PipelineRun.dispatch?_sameProgress hrun).config
  | absorb hs hrun => exact h.withRun hs (PipelineRun.absorb?_frame hrun).1
  | note hs hrun =>
    have hplaced := h.withRun (Or.inl hs) (PipelineRun.absorb?_frame hrun).1
    exact placed_beginMarking hplaced.name_eq false
  | fetch | stop | cease | timeOut => exact placed_of_not_marking h.name_eq rfl
  | close hs =>
    rw [PipelineLoop.close]
    dsimp only
    split
    · refine placed_beginMarking ?_ true
      exact h.name_eq
    · exact placed_of_not_marking h.name_eq rfl
  | idle => exact h

theorem Placed.work (h : l.Placed name s) (number : Nat) (outcome : Outcome) :
    (l.work number outcome).Placed name s := by
  have hconfig := (PipelineRun.work_sameProgress number outcome l.run).config
  exact ⟨(congrArg PipelineConfig.name hconfig).trans h.name_eq, h.marking⟩

/-- **A step of the loop's procedure** leaves its row placed, and all rows within the counter. -/
theorem Proceeds.placed (hproceeds : l.Proceeds keyOf fault s w l' s' w') (h : l.Placed name s)
    (hs : s.RowsCounted) : l'.Placed name s' ∧ s'.RowsCounted := by
  cases hproceeds with
  | ask | seek | begin | refuse | read | miss => exact ⟨placed_of_not_marking h.name_eq rfl, hs⟩
  | @fetch reading hl events hr =>
    have hconfig := (l.run.accept_frame keyOf events).1
    exact ⟨placed_of_not_marking ((congrArg PipelineConfig.name hconfig).trans h.name_eq) rfl, hs⟩
  | @write b marking isLast hl hr =>
    obtain ⟨hname, hplaced⟩ := h.marking b marking isLast hl
    rw [← hname] at hplaced
    have hleads := hplaced.step hs hr fault
    refine ⟨⟨h.name_eq, fun b' marking' isLast' hm => ?_⟩, hleads.rows⟩
    cases hm
    exact ⟨hname, hname ▸ hleads.placed⟩
  | @mark b marking isLast hl result hr =>
    refine ⟨?_, hs⟩
    cases result <;> cases isLast <;> exact placed_of_not_marking h.name_eq rfl
  | idle => exact ⟨h, hs⟩

/-! ### With the store -/

theorem Exact.start_eq_zero (h : l.Exact keyOf name s w) (hw : w.fetched = []) :
    l.run.frontier.start = 0 := by
  have hle := h.ledger.tight.start_le.trans h.ledger.position_le
  rw [hw] at hle
  exact Nat.le_zero.mp hle

/-- A run that has not begun has noted nothing. -/
theorem Exact.names_resuming (h : l.Exact keyOf name s w) {search : Resuming}
    (hs : l.state = .resuming search) (hne : l.state ≠ .resuming .asking) :
    w.Names name s 0 := by
  have hfits := h.fits
  rw [hs] at hfits
  have hnames := h.names hne
  rwa [noted_of_not_marking (congrArg LoopState.isMarking hs), h.start_eq_zero hfits.1] at hnames

/-- The first position has been found, or not: the run begins with nothing fetched. -/
theorem Exact.resumed (h : l.Exact keyOf name s w) {search : Resuming}
    (hs : l.state = .resuming search) (hne : l.state ≠ .resuming .asking)
    (result : Except PipelineError (Option Nat)) :
    (l.resumed result).loop.Exact keyOf name s w := by
  have hfits := h.fits
  rw [hs] at hfits
  have hnames := h.names_resuming hs hne
  cases result with
  | error e =>
    rw [← h.start_eq_zero hfits.1] at hnames
    exact h.goTo trivial hnames
  | ok position =>
    have hledger := PipelineRun.ledger_start keyOf l.run.config position
    rw [← hfits.1, ← hfits.2] at hledger
    have hlength : w.counted.length = w.fetched.length := by
      rw [hfits.1, hfits.2]
      rfl
    have houtcomes : Handling.outcomes
        ((PipelineRun.start l.run.config position).handlings w.counted) =
          Handling.outcomes (l.run.handlings w.counted) :=
      PipelineRun.outcomes_congr (h.ledger.of_length_eq hlength).2.1.symm _
    refine ⟨h.name_eq, h.valid, hledger, ?_, ?_, ?_, trivial, fun _ => hnames⟩
    · exact houtcomes ▸ h.returned_perm
    · rw [hfits.1]
      rfl
    · rw [hfits.1]
      exact Nat.zero_le _

/-- A batch has been fetched, or not. -/
theorem Exact.fetched (h : l.Exact keyOf name s w) {reading : Reading}
    (hs : l.state = .fetching reading) {result : Except LogError (List Event)}
    (hroom : ∀ events, result = .ok events → events.length ≤ l.run.room) :
    (l.fetched keyOf result).loop.Exact keyOf name s (w.fetch result) := by
  have hnames : w.Names name s l.run.frontier.start := by
    have hnames := h.names (by simp [hs])
    rwa [noted_of_not_marking (congrArg LoopState.isMarking hs)] at hnames
  cases result with
  | error e => exact h.goTo trivial hnames
  | ok events =>
    have hledger := h.ledger.accept events
    obtain ⟨hconfig, hfrontier, hstats, -, hassigned⟩ := l.run.accept_frame keyOf events
    refine ⟨?_, ?_, hledger, ?_, ?_, ?_, trivial, fun _ => ?_⟩
    · exact (congrArg PipelineConfig.name hconfig).trans h.name_eq
    · exact (congrArg PipelineConfig.fault? hconfig).trans h.valid
    · exact (PipelineRun.outcomes_congr hassigned w.counted).symm ▸ h.returned_perm
    · refine hstats.trans ?_
      rw [h.stats_fetched]
      exact List.length_append.symm
    · have hle := h.ledger.position_le
      have hfit := hroom events rfl
      have hwindow := h.window
      rw [PipelineRun.room, PipelineRun.inFlight, h.ledger.fetched_eq] at hfit
      change (w.fetched ++ events).length ≤ (l.run.accept keyOf events).frontier.position +
        (l.run.accept keyOf events).config.maxInFlight
      rw [hfrontier, hconfig, List.length_append]
      omega
    · change Watch.Names name s _ (l.run.accept keyOf events).frontier.start
      rw [hfrontier]
      exact hnames.fetched events

/-- **A row that is to be written** names the event at the frontier, which has moved since the
latest row was stored. -/
structure Marks (w : Watch) (b : Bookmark) (l : PipelineLoop) : Prop where
  /-- The frontier has moved. -/
  start_lt : l.run.frontier.start < l.run.frontier.position
  /-- The event at the frontier. -/
  event : ∃ e, w.fetched[l.run.frontier.position - 1]? = some e ∧ b.event = e.id

theorem Exact.marks (h : l.Exact keyOf name s w) {b : Bookmark} {marking : Marking}
    {isLast : Bool} (hs : l.state = .marking b marking isLast) : l.Marks w b := by
  have hfits := h.fits
  rw [hs] at hfits
  obtain ⟨hreached, hlength, -⟩ := hfits
  obtain ⟨e, he, heq⟩ := h.ledger.reached_eq hlength
  exact ⟨Nat.lt_of_sub_pos hlength, e, he, Option.some.inj (hreached.symm.trans heq)⟩

/-- When the row is stored it is the latest. -/
theorem Marks.names {b : Bookmark} (h : l.Marks w b) (hname : b.pipeline = name)
    (hnames : w.Names name s l.run.frontier.start) {marking : Marking}
    (hleads : marking.Leads b s s') (isLast : Bool) :
    w.Names name s' (l.goTo (.marking b marking isLast)).noted := by
  subst hname
  rcases hleads.cases with ⟨hspares, hstill⟩ | ⟨hstored, row, hevent, hadds⟩
  · rw [noted_of_not_isStored rfl hstill]
    exact hnames.mono hspares.latestCheckpoint_eq
  · obtain ⟨e, he, hid⟩ := h.event
    rw [noted_of_isStored rfl hstored]
    exact Watch.names_of_row he hadds.latestCheckpoint_eq (hevent.trans hid)
      (Nat.zero_lt_of_lt h.start_lt)

/-- **The writing of a row goes on**: when the row is stored it names the event at the frontier. -/
theorem Exact.write (h : l.Exact keyOf name s w) {b : Bookmark} {marking marking' : Marking}
    {isLast : Bool} (hs : l.state = .marking b marking isLast) (hnot : ¬marking.IsStored)
    (hname : b.pipeline = name) (hleads : marking'.Leads b s s') :
    (l.goTo (.marking b marking' isLast)).Exact keyOf name s' w := by
  have hnames := h.names (by simp [hs])
  rw [noted_of_not_isStored hs hnot] at hnames
  have hfits := h.fits
  rw [hs] at hfits
  exact ⟨h.name_eq, h.valid, h.ledger, h.returned_perm, h.stats_fetched, h.window, hfits,
    fun _ => (h.marks hs).names hname hnames hleads isLast⟩

/-- A loop that has noted its progress, or could not, serves again or ends. -/
theorem Exact.goOn (h : l.Exact keyOf name s w) {run : PipelineRun} {isLast : Bool}
    (hconfig : run.config = l.run.config) (hledger : run.Ledger keyOf w.fetched w.counted)
    (houtcomes : Handling.outcomes (run.handlings w.counted) =
      Handling.outcomes (l.run.handlings w.counted))
    (hstats : run.stats.fetched = l.run.stats.fetched)
    (hposition : l.run.frontier.position ≤ run.frontier.position)
    (hnames : w.Names name s run.frontier.start)
    (hlast : isLast = true → w.counted.length = w.fetched.length ∧ run.processed = [] ∧
      (w.lastWrite ≠ some false → run.frontier.length = 0)) :
    (if isLast then PipelineLoop.finish ⟨run, l.state⟩
      else PipelineLoop.goTo ⟨run, l.state⟩ .serving).Exact keyOf name s w := by
  cases isLast with
  | false => exact h.change hconfig hledger houtcomes hstats hposition trivial hnames
  | true =>
    obtain ⟨hcounted, hprocessed, hlength⟩ := hlast rfl
    exact h.change hconfig hledger houtcomes hstats hposition
      ⟨rfl, hcounted, hprocessed, hlength⟩ hnames

/-- **The progress has been noted, or not.** A failed write leaves the run as it was. -/
theorem Exact.marked (h : l.Exact keyOf name s w) {b : Bookmark} {marking : Marking}
    {isLast : Bool} (hs : l.state = .marking b marking isLast) {result : Except StoreError Unit}
    (hr : (marking.next b).result? = some result) :
    (l.marked isLast result).loop.Exact keyOf name s (w.mark result) := by
  have hnames := h.names (by simp [hs])
  have hfits := h.fits
  rw [hs] at hfits
  obtain ⟨hreached, hpos, hlast⟩ := hfits
  have hmarked : l.Exact keyOf name s (w.mark result) := by
    refine { h with fits := ?_ }
    rw [hs]
    exact ⟨hreached, hpos, hlast⟩
  cases result with
  | error e =>
    rw [noted_of_not_isStored hs (marking.not_isStored_of_error hr)] at hnames
    refine hmarked.goOn rfl h.ledger rfl rfl le_rfl hnames fun his => ?_
    exact ⟨(hlast his).1, (hlast his).2, fun hwrite => absurd rfl hwrite⟩
  | ok u =>
    rw [noted_of_isStored hs (marking.isStored_of_ok hr)] at hnames
    have hnoted : l.run.noted.Ledger keyOf w.fetched w.counted := h.ledger.noted
    refine hmarked.goOn rfl hnoted rfl rfl le_rfl hnames fun his => ?_
    exact ⟨(hlast his).1, (hlast his).2, fun _ => Nat.sub_self _⟩

/-- **A step of the loop's procedure**, perhaps a failing one, leaves the run exact. -/
theorem Proceeds.exact (hproceeds : l.Proceeds keyOf fault s w l' s' w')
    (h : l.Exact keyOf name s w) (hplaced : l.Placed name s) (hs : s.RowsCounted) :
    l'.Exact keyOf name s' w' := by
  have hfits := h.fits
  cases hproceeds with
  | ask hl search hsearch =>
    rw [hl] at hfits
    -- the row that the run takes up is the one that is the latest now
    have hasked : l.Exact keyOf name s
        { w with resumed := s.latestCheckpoint l.run.config.name } := by
      refine { h with fits := ?_, names := fun hne => absurd hl hne }
      rw [hl]
      exact hfits
    refine hasked.goTo hfits ?_
    rw [noted_of_not_marking rfl]
    change Watch.Names name s _ l.run.frontier.start
    rw [h.start_eq_zero hfits.1, h.name_eq]
    rfl
  | seek hl hne hr =>
    rw [hl] at hfits
    have hnames := h.names_resuming hl (by simpa [hl] using hne)
    rw [← h.start_eq_zero hfits.1] at hnames
    exact h.goTo hfits hnames
  | begin hl hr => exact h.resumed hl (by simpa [hl] using Resuming.ne_asking hr) (.ok _)
  | refuse hl hr => exact h.resumed hl (by simpa [hl] using Resuming.ne_asking hr) (.error _)
  | read hl hr =>
    rw [hl] at hfits
    have hnames := h.names (by simp [hl])
    rw [noted_of_not_marking (congrArg LoopState.isMarking hl)] at hnames
    exact h.goTo (hfits.step s fault) hnames
  | @fetch reading hl events hr =>
    rw [hl] at hfits
    have hle : events.length ≤ l.run.room := Reading.Brings.of_result? hfits (fun _ hle => hle) hr
    have hroom : ∀ found, (.ok events : Except LogError (List Event)) = .ok found →
        found.length ≤ l.run.room := fun found heq => Except.ok.inj heq ▸ hle
    exact h.fetched hl hroom
  | @miss reading hl e hr =>
    have hroom : ∀ found, (.error e : Except LogError (List Event)) = .ok found →
        found.length ≤ l.run.room := nofun
    exact h.fetched hl hroom
  | @write b marking isLast hl hr =>
    obtain ⟨hname, hplace⟩ := hplaced.marking b marking isLast hl
    rw [← hname] at hplace
    exact h.write hl (marking.not_isStored_of_none hr) hname (hplace.step hs hr fault)
  | mark hl hr => exact h.marked hl hr
  | idle => exact h

end PipelineLoop

end EventJournal
