import EventJournal.Proofs.Pipeline.Standstill
import EventJournal.Proofs.Visibility

/-!
# The window of a run

A run subtracts without asking: the frontier from what it has fetched, when it looks for room, and
the counted elements from the fetched ones, when it waits for the rest. Neither difference is ever
cut off at zero, and the run is never further ahead of its frontier than it may be. Of a run that
has not given up on its elements this is read off its ledger; a run that has is still *confined*
(`EventJournal.PipelineRun.Confined`), since what it has spared can only be counted.

What it has fetched are the first of the events after the position that it began after, whatever
fetches have failed, as long as the log grows at its end (`EventJournal.PipelineLoop.InLog`). The
position is the one that the run has found itself (`EventJournal.Tenancy.beginning`), and not where
the row is that it took up: the log may have grown in between.

| the run | because | kept by each move |
|---|---|---|
| is within its window | it asks for what it has room for | `EventJournal.Tenancy.Windowed` |
| skips and repeats nothing | it reads after its last position | `EventJournal.Tenancy.inLog_act` |

`EventJournal.Tenancy.fetches_within_window` says both of every run of a pipeline, at any time.
-/

namespace EventJournal

/-! ### Runs that are confined -/

namespace PipelineRun

/-- **A run that is confined to the events that it has fetched**, and to its window. -/
structure Confined (keyOf : Event → Uuid) (events : List Event) (r : PipelineRun) : Prop where
  /-- The fetched events have been numbered. -/
  fetched_eq : r.fetched = events.length
  /-- The counter of fetched events. -/
  stats_fetched : r.stats.fetched = events.length
  /-- The run has only numbered events in hand. -/
  held : ∀ e, r.Holds e → e ∈ numbered keyOf events
  /-- What has been counted is no longer under way. -/
  settled_le : r.stats.settled + r.assigned.length ≤ events.length
  /-- No number has finished, or is announced to have, that is beyond what was fetched. -/
  number_le : ∀ n, (r.frontier.Finished n ∨ ∃ e ∈ r.processed, e.number = n) → n ≤ events.length
  /-- The run is not too far ahead of its frontier. -/
  window : events.length ≤ r.frontier.position + r.config.maxInFlight

variable {keyOf : Event → Uuid} {events : List Event} {counted : List (Element × Outcome)}
  {r : PipelineRun}

/-- The frontier is not beyond what was fetched. -/
theorem Confined.position_le (h : r.Confined keyOf events) :
    r.frontier.position ≤ events.length :=
  h.number_le _ (Or.inl (Or.inl le_rfl))

/-- What a run of which the ledger is known has in hand has been numbered. -/
theorem Ledger.mem_of_holds (h : r.Ledger keyOf events counted) {e : Element} (he : r.Holds e) :
    e ∈ numbered keyOf events := by
  rcases he with ⟨key, queue, hget, hmem⟩ | hmem | ⟨a, ha, rfl⟩
  · have hqueue := Lanes.mem_queue_iff.mpr ⟨queue, hget, hmem⟩
    exact (List.mem_filter.mp ((h.places key).mem_iff.mpr (List.mem_append_right _ hqueue))).1
  · exact h.mem_numbered (List.mem_append_left _ hmem)
  · have hhandled : a.element ∈ (r.handlings counted).map Handling.element :=
      List.mem_map.mpr ⟨⟨a.element, a.stage⟩,
        List.mem_append_left _ (List.mem_map_of_mem ha), rfl⟩
    exact h.mem_numbered (List.mem_append_right _ hhandled)

/-- What is under way and what has been counted are different elements. -/
theorem Ledger.settled_add_length_le (h : r.Ledger keyOf events counted) :
    r.stats.settled + r.assigned.length ≤ events.length := by
  have hle := h.subperm.length_le
  simp only [handlings, List.length_append, List.length_map, length_numbered] at hle
  rw [h.settled_eq]
  omega

/-- **A run of which the ledger is known** is confined as long as it is within its window. -/
theorem Ledger.confined (h : r.Ledger keyOf events counted)
    (hstats : r.stats.fetched = events.length)
    (hwindow : events.length ≤ r.frontier.position + r.config.maxInFlight) :
    r.Confined keyOf events where
  fetched_eq := h.fetched_eq
  stats_fetched := hstats
  held _ he := h.mem_of_holds he
  settled_le := h.settled_add_length_le
  number_le _ hn := h.number_le hn
  window := hwindow

/-- Dispatched elements are given up. -/
theorem Confined.abandon (h : r.Confined keyOf events) (spared : Assignment → Bool) :
    (r.abandon spared).Confined keyOf events where
  fetched_eq := h.fetched_eq
  stats_fetched := h.stats_fetched
  held e he := h.held e (holds_of_filter he)
  settled_le := by
    have hle := List.length_filter_le spared r.assigned
    exact (Nat.add_le_add_left hle _).trans h.settled_le
  number_le := h.number_le
  window := h.window

/-- **A worker that goes on** counts an element only when it is done with it. -/
theorem settled_work_le (number : Nat) (outcome : Outcome) (r : PipelineRun) :
    (r.work number outcome).stats.settled + (r.work number outcome).assigned.length ≤
      r.stats.settled + r.assigned.length := by
  have hmoved : ∀ stage, (r.moveTo number stage).assigned.length = r.assigned.length :=
    fun stage => List.length_map _
  rw [work]
  split
  · split
    · exact (Nat.add_le_add_left (hmoved _).le _)
    · exact le_rfl
  · exact (Nat.add_le_add_left (hmoved _).le _)
  · rw [announce]
    split <;> exact (Nat.add_le_add_left (List.length_map _).le _)
  · exact (Nat.add_le_add_left (List.length_map _).le _)
  · next e o ha =>
    obtain ⟨hmem, hnumber⟩ := assignment?_eq_some ha
    have hlt : (r.assigned.filter fun a => a.element.number ≠ number).length <
        r.assigned.length :=
      List.length_filter_lt_length_iff_exists.mpr ⟨_, hmem, by simpa using hnumber⟩
    have hone : (r.count number o).stats.settled = r.stats.settled + 1 := by
      simp only [count, Stats.settled]
      split <;> dsimp only <;> omega
    rw [hone]
    change r.stats.settled + 1 + (r.assigned.filter fun a => a.element.number ≠ number).length ≤ _
    omega
  · exact le_rfl

/-- What a worker announces is under way. -/
theorem mem_processed_of_work {number : Nat} {outcome : Outcome} {x : Element}
    (hx : x ∈ (r.work number outcome).processed) : x ∈ r.processed ∨ r.Holds x := by
  rw [work] at hx
  split at hx
  · split at hx <;> exact Or.inl hx
  · exact Or.inl hx
  · next e o ha =>
    rw [announce] at hx
    split at hx
    · rcases List.mem_append.mp hx with hx | hx
      · exact Or.inl hx
      · obtain rfl := List.mem_singleton.mp hx
        exact Or.inr (Or.inr (Or.inr ⟨_, (assignment?_eq_some ha).1, rfl⟩))
    · exact Or.inl hx
  all_goals exact Or.inl hx

/-- **A worker goes on**, whether or not its element was given up. -/
theorem Confined.work (h : r.Confined keyOf events) (number : Nat) (outcome : Outcome) :
    (r.work number outcome).Confined keyOf events := by
  have hsame := work_sameProgress number outcome r
  refine ⟨hsame.fetched.trans h.fetched_eq, hsame.stats_fetched.trans h.stats_fetched,
    fun e he => h.held e (holds_of_work he), (settled_work_le number outcome r).trans h.settled_le,
    fun n hn => ?_, ?_⟩
  · rw [hsame.frontier] at hn
    rcases hn with hn | ⟨e, he, rfl⟩
    · exact h.number_le n (Or.inl hn)
    · rcases mem_processed_of_work he with he | he
      · exact h.number_le _ (Or.inr ⟨e, he, rfl⟩)
      · exact number_le_of_mem_numbered (h.held e he)
  · rw [hsame.frontier, hsame.config]
    exact h.window

/-- The loop hears of all successes. -/
theorem Confined.absorbAll (h : r.Confined keyOf events) :
    r.absorbAll.Confined keyOf events where
  fetched_eq := h.fetched_eq
  stats_fetched := h.stats_fetched
  held := h.held
  settled_le := h.settled_le
  number_le n hn := by
    rcases hn with hn | ⟨e, he, -⟩
    · exact h.number_le n (finished_foldl_finish.mp hn)
    · exact absurd he List.not_mem_nil
  window := h.window.trans (Nat.add_le_add_right (position_le_foldl_finish _ _) _)

/-- The progress is noted. -/
theorem Confined.noted (h : r.Confined keyOf events) : r.noted.Confined keyOf events :=
  { h with number_le := h.number_le }

end PipelineRun

/-! ### Loops that wait no longer -/

/-- A loop that does not wait for its elements any longer. -/
def LoopState.isOver : LoopState → Bool
  | closing | marking _ _ true | ended _ => true
  | _ => false

theorem LoopState.isLast_of_isOver {b : Bookmark} {marking : Marking} {isLast : Bool}
    (h : (LoopState.marking b marking isLast).isOver = true) : isLast = true := by
  cases isLast
  · cases h
  · rfl

/-- **What a fetch asks for** fits the run: what comes after its position, at least one event and at
most a batch. -/
def LoopState.Asks (r : PipelineRun) : LoopState → Prop
  | fetching reading =>
    reading.Brings (fun p limit => p = r.position ∧ 0 < limit ∧ limit ≤ r.config.batchSize)
      fun _ => True
  | _ => True

/-- The call that a fetch makes. -/
theorem Reading.eq_of_asks {r : PipelineRun} {reading : Reading}
    (h : (LoopState.fetching reading).Asks r) {call : Call}
    {resume : Except StoreError call.Answer → Reading} (hnext : reading.next = .asks call resume) :
    ∃ limit, call = .eventsAfter r.position limit ∧ 1 ≤ limit ∧ limit ≤ r.config.batchSize := by
  cases reading with
  | after p limit =>
    obtain ⟨rfl, hpos, hle⟩ := h
    rw [next, if_neg hpos.ne'] at hnext
    cases hnext
    exact ⟨limit, rfl, hpos, hle⟩
  | done result => cases hnext
  | _ => exact absurd h id

namespace PipelineLoop

variable {keyOf : Event → Uuid} {fault : Option StoreError} {s s' : Store} {w w' : Watch}
  {l l' : PipelineLoop}

/-- **A loop that waits no longer** can only be closed. -/
theorem Reacts.of_isOver {move : LoopMove} (h : l.Reacts move l')
    (hover : l.state.isOver = true) : l' = l ∨ l' = l.close.loop := by
  cases h with
  | close => exact Or.inr rfl
  | idle => exact Or.inl rfl
  | dispatch hs | absorb hs => rcases hs with hs | hs <;> (rw [hs] at hover; cases hover)
  | hold hs | fetch hs | note hs | stop hs | cease hs | timeOut hs =>
    rw [hs] at hover
    cases hover

/-- **A loop that waits no longer** takes no steps but those of the writing of its last row. -/
theorem Proceeds.of_isOver (h : l.Proceeds keyOf fault s w l' s' w')
    (hover : l.state.isOver = true) :
    l'.state.isOver = true ∧ w'.fetched = w.fetched ∧ (l'.run = l.run ∨ l'.run = l.run.noted) := by
  cases h with
  | @write b marking isLast hs hr =>
    rw [hs] at hover
    obtain rfl := LoopState.isLast_of_isOver hover
    exact ⟨rfl, rfl, Or.inl rfl⟩
  | @mark b marking isLast hs result hr =>
    rw [hs] at hover
    obtain rfl := LoopState.isLast_of_isOver hover
    cases result with
    | ok _ => exact ⟨rfl, rfl, Or.inr rfl⟩
    | error e => exact ⟨rfl, rfl, Or.inl rfl⟩
  | idle => exact ⟨hover, rfl, Or.inl rfl⟩
  | ask hs | seek hs | begin hs | refuse hs | read hs | fetch hs | miss hs =>
    rw [hs] at hover
    cases hover

/-- A loop that is closed stays confined, and over. -/
theorem confined_close {events : List Event} (h : l.run.Confined keyOf events) :
    l.close.loop.state.isOver = true ∧ l.close.loop.run.Confined keyOf events := by
  rw [PipelineLoop.close]
  dsimp only
  split
  · rw [PipelineLoop.beginMarking]
    split <;> exact ⟨rfl, h.absorbAll⟩
  · exact ⟨rfl, h.absorbAll⟩

/-- A row is begun to be written: nothing is asked for. -/
theorem asks_beginMarking (isLast : Bool) (l : PipelineLoop) :
    (l.beginMarking isLast).loop.state.Asks (l.beginMarking isLast).loop.run := by
  rw [PipelineLoop.beginMarking]
  cases isLast <;> split <;> trivial

/-- **A fetch begins** only if there is room, and asks for no more than a batch. -/
theorem Reacts.asks {move : LoopMove} (h : l.Reacts move l') (hasks : l.state.Asks l.run)
    (hvalid : l.state = .serving → l.run.config.fault? = none) : l'.state.Asks l'.run := by
  cases h with
  | hold hs =>
    rw [hs]
    trivial
  | fetch hs now hlimit =>
    have hbatch := (PipelineConfig.pos_of_fault? (hvalid hs)).1
    obtain ⟨hroom, rfl⟩ := PipelineRun.limit?_eq_some hlimit
    exact ⟨rfl, Nat.lt_min.mpr ⟨hbatch, hroom⟩, Nat.min_le_left _ _⟩
  | dispatch hs | absorb hs => rcases hs with hs | hs <;> (rw [hs]; trivial)
  | note => exact asks_beginMarking false _
  | stop | cease | timeOut => trivial
  | close =>
    rw [PipelineLoop.close]
    dsimp only
    split
    · exact asks_beginMarking true _
    · trivial
  | idle => exact hasks

/-- A fetch goes on asking for the same. -/
theorem Proceeds.asks (h : l.Proceeds keyOf fault s w l' s' w') (hasks : l.state.Asks l.run) :
    l'.state.Asks l'.run := by
  cases h with
  | read hs hr =>
    rw [hs] at hasks
    exact hasks.step (fun _ _ _ => trivial) fault
  | @mark b marking isLast hs result hr => cases result <;> cases isLast <;> trivial
  | idle => exact hasks
  | _ => trivial

theorem asks_work (hasks : l.state.Asks l.run) (number : Nat) (outcome : Outcome) :
    (l.work number outcome).state.Asks (l.work number outcome).run := by
  have hsame := PipelineRun.work_sameProgress number outcome l.run
  change l.state.Asks (l.run.work number outcome)
  cases hs : l.state with
  | fetching reading =>
    rw [hs] at hasks
    simp only [LoopState.Asks, hsame.position, hsame.config]
    exact hasks
  | _ => trivial

end PipelineLoop

/-! ### Within the window -/

namespace Tenancy

variable {t : Tenancy} {l : PipelineLoop}

/-- **The invariant** of the window. -/
structure Windowed (t : Tenancy) : Prop where
  /-- The invariant of all histories. -/
  steady : t.Steady
  /-- A run that has given up on its elements is still confined. -/
  ended : ∀ l, t.loop = some l → t.watch.timedOut = true →
    l.state.isOver = true ∧ l.run.Confined t.keyOf t.watch.fetched
  /-- What is asked for. -/
  asks : ∀ l, t.loop = some l → l.state.Asks l.run

theorem windowed_start (name : String) : (start name).Windowed where
  steady := steady_start name
  ended _ hl := nomatch hl
  asks _ hl := nomatch hl

/-- **The run is confined**, whether or not it has given up on its elements. -/
theorem Windowed.confined (h : t.Windowed) (hl : t.loop = some l) :
    l.run.Confined t.keyOf t.watch.fetched := by
  cases hw : t.watch.timedOut with
  | true => exact (h.ended l hl hw).2
  | false =>
    have hexact := h.steady.exact l hl hw
    exact hexact.ledger.confined hexact.stats_fetched hexact.window

/-- The settings of a run that serves make sense. -/
theorem Windowed.valid (h : t.Windowed) (hl : t.loop = some l) (hs : l.state = .serving) :
    l.run.config.fault? = none := by
  cases hw : t.watch.timedOut with
  | false => exact (h.steady.exact l hl hw).valid
  | true =>
    have hover := (h.ended l hl hw).1
    rw [hs] at hover
    cases hover

/-- The loop does something without the store, and may give up on its elements. -/
theorem Windowed.ended_react (h : t.Windowed) (hl : t.loop = some l) {move : LoopMove}
    (hw : (t.watch.react move l).timedOut = true) :
    (l.react move).state.isOver = true ∧
      (l.react move).run.Confined t.keyOf (t.watch.react move l).fetched := by
  have hconfined := h.confined hl
  have hreacts := l.reacts_react move
  unfold Watch.react at hw ⊢
  split at hw
  · next spared hs =>
    simp only [PipelineLoop.react, hs]
    exact ⟨rfl, hconfined.abandon spared⟩
  · have hover := (h.ended l hl hw).1
    rcases hreacts.of_isOver hover with heq | heq
    · rw [heq]
      exact ⟨hover, hconfined⟩
    · rw [heq]
      exact PipelineLoop.confined_close hconfined

/-- **Whatever happens next**, the run stays within its window. -/
theorem Windowed.act (h : t.Windowed) (move : Move) : (t.act move).Windowed := by
  have hsteady := h.steady.act move
  have hacts := t.acts_act move
  generalize t.act move = t' at hsteady hacts ⊢
  cases hacts with
  | call hadmits => exact ⟨hsteady, h.ended, h.asks⟩
  | launch =>
    refine ⟨hsteady, fun l hl hw => ?_, fun l hl => ?_⟩
    · cases hw
    · cases hl
      trivial
  | proceed hl hproceeds =>
    refine ⟨hsteady, fun l' hl' hw => ?_, fun l' hl' => ?_⟩
    · cases hl'
      obtain ⟨hover, hconfined⟩ := h.ended _ hl (hproceeds.timedOut_eq.symm.trans hw)
      obtain ⟨hover', hfetched, hrun⟩ := hproceeds.of_isOver hover
      refine ⟨hover', ?_⟩
      rw [hfetched]
      rcases hrun with hrun | hrun
      · rwa [hrun]
      · rw [hrun]
        exact hconfined.noted
    · cases hl'
      exact hproceeds.asks (h.asks _ hl)
  | react hl move =>
    refine ⟨hsteady, fun l' hl' hw => ?_, fun l' hl' => ?_⟩
    · cases hl'
      exact h.ended_react hl hw
    · cases hl'
      exact (PipelineLoop.reacts_react _ _).asks (h.asks _ hl) (h.valid hl)
  | work hl number outcome =>
    refine ⟨hsteady, fun l' hl' hw => ?_, fun l' hl' => ?_⟩
    · cases hl'
      obtain ⟨hover, hconfined⟩ := h.ended _ hl hw
      exact ⟨hover, hconfined.work number outcome⟩
    · cases hl'
      exact PipelineLoop.asks_work (h.asks _ hl) number outcome
  | leave =>
    refine ⟨hsteady, fun l' hl' => ?_, fun l' hl' => ?_⟩
    · cases hl'
    · cases hl'
  | idle => exact h

/-- **Whatever happens**, in any order. -/
theorem Windowed.run (h : t.Windowed) (moves : List Move) : (t.run moves).Windowed := by
  induction moves generalizing t with
  | nil => exact h
  | cons move rest ih => exact ih (h.act move)

end Tenancy

/-! ### Where the fetched events are in the log -/

namespace EventTable

variable {t u : EventTable} {base position : Option Nat} {fetched : List Event}

/-- What is to be fetched only grows at its end when the log does. -/
theorem ahead_mono (hlog : t.toList <+: u.toList) (base : Option Nat) :
    t.ahead base <+: u.ahead base := hlog.filter _

theorem Reached.mono (h : t.Reached base fetched position) (hlog : t.toList <+: u.toList) :
    u.Reached base fetched position :=
  ⟨h.initial.trans (ahead_mono hlog base), h.position_eq⟩

end EventTable

/-- **What a loop is at goes on with the log** from a base, when its run has fetched events and has
come to a position. -/
def LoopState.InLog (t : EventTable) (base : Option Nat) (fetched : List Event)
    (position : Option Nat) : LoopState → Prop
  | resuming _ => fetched = []
  | fetching reading =>
    t.Reached base fetched position ∧ reading.Continues t base fetched position
  | serving | marking _ _ false => t.Reached base fetched position
  | _ => fetched <+: t.ahead base

/-- **What was fetched** are the first of the events after the base. -/
theorem LoopState.InLog.initial {t : EventTable} {base : Option Nat} {fetched : List Event}
    {position : Option Nat} {state : LoopState} (h : state.InLog t base fetched position) :
    fetched <+: t.ahead base := by
  cases state with
  | resuming search =>
    obtain rfl : fetched = [] := h
    exact List.nil_prefix
  | fetching reading => exact h.1.initial
  | serving => exact EventTable.Reached.initial h
  | marking b marking isLast =>
    cases isLast with
    | false => exact EventTable.Reached.initial h
    | true => exact h
  | _ => exact h

theorem LoopState.InLog.mono {t u : EventTable} {base : Option Nat} {fetched : List Event}
    {position : Option Nat} {state : LoopState} (h : state.InLog t base fetched position)
    (hlog : t.toList <+: u.toList) : state.InLog u base fetched position := by
  have hahead := EventTable.ahead_mono hlog base
  cases state with
  | resuming search => exact h
  | fetching reading => exact ⟨h.1.mono hlog, h.2.mono fun _ hevents => hevents.trans hahead⟩
  | serving => exact EventTable.Reached.mono h hlog
  | marking b marking isLast =>
    cases isLast with
    | false => exact EventTable.Reached.mono h hlog
    | true => exact List.IsPrefix.trans h hahead
  | _ => exact List.IsPrefix.trans h hahead

namespace PipelineLoop

/-- **A run that goes on with the log** from a base. -/
def InLog (t : EventTable) (base : Option Nat) (w : Watch) (l : PipelineLoop) : Prop :=
  l.state.InLog t base w.fetched l.run.position

/-- The position after which the run begins, if it begins with the next step. -/
def finds? (l : PipelineLoop) : Option (Option Nat) :=
  match l.state with
  | .resuming search => (search.next l.run.config.name).result?.bind Except.toOption
  | _ => none

variable {keyOf : Event → Uuid} {fault : Option StoreError} {s s' : Store} {w w' : Watch}
  {t : EventTable} {base : Option Nat} {l l' : PipelineLoop}

theorem InLog.reached (h : l.InLog t base w) (hs : l.state.serves = true) :
    t.Reached base w.fetched l.run.position := by
  rw [InLog] at h
  cases hl : l.state with
  | serving => rwa [hl] at h
  | fetching reading =>
    rw [hl] at h
    exact h.1
  | marking b marking isLast =>
    rw [hl] at h hs
    cases isLast with
    | false => exact h
    | true => cases hs
  | _ =>
    rw [hl] at hs
    cases hs

/-- The run goes on, and fetches nothing. -/
theorem InLog.withRun (h : l.InLog t base w) {run : PipelineRun}
    (hposition : run.position = l.run.position) : { l with run }.InLog t base w := by
  rw [InLog, hposition]
  exact h

/-- A loop that has noted its progress, or could not, serves again or ends. -/
theorem InLog.goOn (h : l.InLog t base w) {isLast : Bool}
    (hreached : isLast = false → t.Reached base w.fetched l.run.position) :
    (if isLast then l.finish else l.goTo .serving).InLog t base w := by
  cases isLast with
  | false => exact hreached rfl
  | true => exact h.initial

theorem InLog.beginMarking (h : l.InLog t base w) {isLast : Bool}
    (hreached : isLast = false → t.Reached base w.fetched l.run.position) :
    (l.beginMarking isLast).loop.InLog t base w := by
  rw [PipelineLoop.beginMarking]
  split
  · cases isLast with
    | false => exact hreached rfl
    | true => exact h.initial
  · exact h.goOn hreached

/-- **Whatever the loop does without the store**: it asks for what comes after its position. -/
theorem Reacts.inLog {move : LoopMove} (hreacts : l.Reacts move l') (h : l.InLog t base w) :
    l'.InLog t base w := by
  cases hreacts with
  | hold => exact h.withRun rfl
  | fetch hs => exact ⟨h.reached (congrArg LoopState.serves hs), rfl⟩
  | dispatch hs hrun => exact h.withRun (PipelineRun.dispatch?_sameProgress hrun).position
  | absorb hs hrun => exact h.withRun (PipelineRun.absorb?_frame hrun).2.2.1
  | note hs hrun =>
    have hrun := h.withRun (PipelineRun.absorb?_frame hrun).2.2.1
    exact hrun.beginMarking fun _ => hrun.reached (congrArg LoopState.serves hs)
  | stop | cease | timeOut => exact h.initial
  | close =>
    have hclosed : { l with run := l.run.absorbAll }.InLog t base w := h.withRun rfl
    rw [PipelineLoop.close]
    dsimp only
    split
    · exact hclosed.beginMarking fun hlast => by cases hlast
    · exact hclosed.initial
  | idle => exact h

/-- **A step of the loop's procedure**: a fetch goes on where the last one that did not fail has
ended. -/
theorem Proceeds.inLog (hproceeds : l.Proceeds keyOf fault s w l' s' w')
    (h : l.InLog s.events base w) (hs : s.events.Coherent) :
    l'.InLog s.events (l.finds?.getD base) w' := by
  have hfollows := h
  rw [InLog] at hfollows
  cases hproceeds with
  | ask hl =>
    rw [hl] at hfollows
    exact hfollows
  | seek hl =>
    rw [hl] at hfollows
    exact hfollows
  | begin hl hr =>
    rw [hl] at hfollows
    simp only [InLog, finds?, hl, hr, LoopState.InLog]
    have hnil : w.fetched = [] := hfollows
    rw [hnil]
    exact s.events.reached_nil _
  | refuse hl hr =>
    rw [hl] at hfollows
    have hnil : w.fetched = [] := hfollows
    simp only [InLog, LoopState.InLog, goTo, hnil]
    exact List.nil_prefix
  | @read reading hl hr =>
    rw [hl] at hfollows
    simp only [finds?, hl]
    exact ⟨hfollows.1, hfollows.2.step hfollows.1 hs fault⟩
  | @fetch reading hl events hr =>
    rw [hl] at hfollows
    obtain ⟨hreached, hcontinues⟩ := hfollows
    have hmore : w.fetched ++ events <+: s.events.ahead base :=
      hcontinues.of_result? (fun _ _ => by simpa using hreached.initial) hr
    simp only [InLog, finds?, hl, LoopState.InLog]
    rw [(l.run.accept_frame keyOf events).2.2.2.1]
    exact hreached.fetch hmore
  | miss hl hr =>
    rw [hl] at hfollows
    simp only [finds?, hl]
    exact hfollows.1
  | @write b marking isLast hl hr =>
    rw [hl] at hfollows
    simp only [finds?, hl]
    cases isLast <;> exact hfollows
  | @mark b marking isLast hl result hr =>
    have hreached : isLast = false → s.events.Reached base w.fetched l.run.position := by
      rintro rfl
      exact h.reached (by rw [hl]; rfl)
    simp only [finds?, hl]
    cases result with
    | ok _ =>
      have hnoted : { l with run := l.run.noted }.InLog s.events base w := h.withRun rfl
      exact hnoted.goOn hreached
    | error e => exact h.goOn hreached
  | idle hnone =>
    have hfinds : l.finds? = none := by
      rw [finds?]
      split
      · next hl =>
        rw [procedure?, hl] at hnone
        cases hnone
      · rfl
    rw [hfinds]
    exact h

/-- A step of a loop's procedure adds nothing to the log. -/
theorem Proceeds.grows (hproceeds : l.Proceeds keyOf fault s w l' s' w') (hs : s.Counted) :
    s.Grows s' := by
  cases hproceeds with
  | @write b marking =>
    rcases (marking.next_calls b).step_store fault marking s with heq | ⟨call, hcall, heq⟩
    · rw [heq]
      exact hs.grows_refl
    · rw [heq]
      exact Call.NoGap.grows (Or.inl hcall.leavesEvents) hs
  | _ => exact hs.grows_refl

end PipelineLoop

namespace Tenancy

/-- The position after which a run begins, if a move makes it begin. -/
def finds? (move : Move) (t : Tenancy) : Option (Option Nat) :=
  match move, t.loop with
  | .proceed _, some l => l.finds?
  | _, _ => none

/-- **The position after which the latest run began**, after a history at the beginning of which it
was a given one. -/
def beginning (base : Option Nat) : List Move → Tenancy → Option Nat
  | [], _ => base
  | move :: rest, t => beginning ((t.finds? move).getD base) rest (t.act move)

/-- **The log grows at its end**, if it grows, as long as a history lasts. -/
def GrowsAtEnd : List Move → Tenancy → Prop
  | [], _ => True
  | move :: rest, t =>
    t.store.events.toList <+: (t.act move).store.events.toList ∧ GrowsAtEnd rest (t.act move)

variable {t : Tenancy} {l : PipelineLoop} {base : Option Nat}

/-- **Whatever happens next**, the run goes on with the log, if that grows at its end. -/
theorem inLog_act (h : ∀ l, t.loop = some l → l.InLog t.store.events base t.watch)
    (hcoherent : t.store.events.Coherent) {move : Move}
    (hlog : t.store.events.toList <+: (t.act move).store.events.toList) :
    ∀ l, (t.act move).loop = some l →
      l.InLog (t.act move).store.events ((t.finds? move).getD base) (t.act move).watch := by
  have hacts := t.acts_act move
  generalize t.act move = t' at hacts hlog ⊢
  intro l' hl'
  cases hacts with
  | call hadmits => exact (h l' hl').mono hlog
  | launch =>
    cases hl'
    rfl
  | @proceed l _ hl fault s w hproceeds =>
    cases hl'
    have hfinds : t.finds? (.proceed fault) = l.finds? := by simp only [finds?, hl]
    rw [hfinds]
    exact (hproceeds.inLog (h _ hl) hcoherent).mono hlog
  | @react l hl move =>
    cases hl'
    have hinLog := (l.reacts_react move).inLog (h _ hl)
    simp only [finds?, Option.getD_none]
    unfold Watch.react
    split <;> exact hinLog
  | @work l hl number outcome =>
    cases hl'
    exact (h _ hl).withRun (PipelineRun.work_sameProgress number outcome l.run).position
  | leave hl => cases hl'
  | idle hnone =>
    have hfinds : t.finds? move = none := by
      cases move with
      | proceed fault =>
        rw [hnone fault rfl] at hl'
        cases hl'
      | _ => rfl
    rw [hfinds]
    exact h l' hl'

/-- **What was fetched** are the first of the events after the position that the run began after,
whatever has happened, if the log grows at its end. -/
theorem inLog_run (h : ∀ l, t.loop = some l → l.InLog t.store.events base t.watch)
    (hcoherent : t.store.events.Coherent) {moves : List Move} (hlog : t.GrowsAtEnd moves) :
    ∀ l, (t.run moves).loop = some l →
      l.InLog (t.run moves).store.events (t.beginning base moves) (t.run moves).watch := by
  induction moves generalizing t base with
  | nil => exact h
  | cons move rest ih =>
    exact ih (inLog_act h hcoherent hlog.1) (act_coherent hcoherent move) hlog.2

/-- Others that move on let the log grow at its end. -/
theorem growsAtEnd_of_movesOn (hs : t.store.Counted) {moves : List Move}
    (hcalls : ∀ call, .call call ∈ moves → call.MovesOn) : t.GrowsAtEnd moves := by
  induction moves generalizing t with
  | nil => trivial
  | cons move rest ih =>
    have hgrows : t.store.Grows (t.act move).store := by
      have hacts := t.acts_act move
      generalize t.act move = t' at hacts ⊢
      cases hacts with
      | @call call hadmits => exact (hcalls call List.mem_cons_self).grows hs
      | proceed hl hproceeds => exact hproceeds.grows hs
      | _ => exact hs.grows_refl
    exact ⟨hgrows.log,
      ih hgrows.counted fun call hcall => hcalls call (List.mem_cons_of_mem _ hcall)⟩

/-- **A run stays within its window, and skips nothing.** Whatever has happened: the frontier of a
run is not beyond what it has fetched, the run is no more than the set number of elements ahead of
it, and no more elements were counted than fetched; so none of its differences is cut off at zero.
Whenever it asks for events, it asks for what comes after its position, for at least one event and
at most a batch. And if the log grows at its end, what the run has fetched are as many of the events
after the position that it began after as it counts, in the order of the log, and its elements
bear their numbers. -/
theorem fetches_within_window {name : String} {moves : List Move} {t : Tenancy} {l : PipelineLoop}
    (ht : (start name).run moves = t) (hl : t.loop = some l) :
    (l.run.frontier.position ≤ l.run.fetched ∧
      l.run.fetched - l.run.frontier.position ≤ l.run.config.maxInFlight ∧
      l.run.stats.settled ≤ l.run.fetched) ∧
    (∀ reading call resume, l.state = .fetching reading → reading.next = .asks call resume →
      ∃ limit, call = .eventsAfter l.run.position limit ∧
        1 ≤ limit ∧ limit ≤ l.run.config.batchSize) ∧
    ((start name).GrowsAtEnd moves →
      t.watch.fetched =
        (t.store.events.ahead ((start name).beginning none moves)).take l.run.fetched ∧
      ∀ e, l.run.Holds e → e ∈ numbered t.keyOf t.watch.fetched) := by
  have hwindowed := (windowed_start name).run moves
  rw [ht] at hwindowed
  have hconfined := hwindowed.confined hl
  refine ⟨⟨?_, ?_, ?_⟩, fun reading call resume hs hnext => ?_, fun hlog => ⟨?_, hconfined.held⟩⟩
  · rw [hconfined.fetched_eq]
    exact hconfined.position_le
  · have hwindow := hconfined.window
    rw [hconfined.fetched_eq]
    omega
  · have hsettled := hconfined.settled_le
    rw [hconfined.fetched_eq]
    omega
  · have hasks := hwindowed.asks l hl
    rw [hs] at hasks
    exact Reading.eq_of_asks hasks hnext
  · have hnone : ∀ l, (start name).loop = some l →
        l.InLog (start name).store.events none (start name).watch := by
      intro _ hl
      cases hl
    have hinLog := inLog_run hnone EventTable.coherent_empty hlog l
    rw [ht] at hinLog
    rw [hconfined.fetched_eq]
    exact List.prefix_iff_eq_take.mp (hinLog hl).initial

/-- A history in which the first fetch fails, the next brings two events, another writer appends
one while they are handled, and more is asked for. -/
def retried : List Move :=
  sixEvents ++ List.flatten
    [[.launch { narrow with checkpointThreshold := 9 } Event.id,
      .proceed none, .proceed none, .proceed none,
      .react (.tick 0), .proceed (some (.unavailable "closed")), .proceed none,
      .react (.tick 1), .proceed none, .proceed none, .react .dispatch, .react .dispatch],
    handles 2 .failed, handles 1 .succeeded,
    [.call (.commitEvents Sequence.events
        (Draft.placeAll (.ofNat 8) 0 7 [.ofBytes (.ofNat 7) .epoch "" []])),
      .react .absorb, .react (.tick 2)]]

/-- The end of that history. -/
def asker : Tenancy := (start "a").run retried

theorem fetches_within_window_asker :
    ∃ l, asker.loop = some l ∧ l.run.frontier.position = 1 ∧ l.run.fetched = 2 ∧
      l.run.fetched - l.run.frontier.position ≤ 2 ∧
      asker.watch.fetched = (asker.store.events.ahead (some 1)).take 2 := by
  have hend : (start "a").run retried = asker := by rw [asker]
  obtain ⟨l, hl, hfacts⟩ : ∃ l, asker.loop = some l ∧
      (l.run.frontier.position, l.run.fetched, l.run.config.maxInFlight) = (1, 2, 2) :=
    Option.map_eq_some_iff.mp (by decide +kernel)
  simp only [Prod.mk.injEq] at hfacts
  obtain ⟨hposition, hfetched, hmax⟩ := hfacts
  have hbase : (start "a").beginning none retried = some 1 := by decide +kernel
  -- the other writers append, and store a row before the run begins
  have hlog : (start "a").GrowsAtEnd retried := by
    refine growsAtEnd_of_movesOn Store.counted_empty fun call hcall => ?_
    simp only [retried, sixEvents, handles, List.flatten_cons, List.flatten_nil, List.mem_append,
      List.mem_cons, List.mem_replicate, List.not_mem_nil, reduceCtorEq, Move.call.injEq, and_false,
      or_false, false_or] at hcall
    rcases hcall with (rfl | rfl) | rfl
    · exact Or.inl (Or.inr ⟨_, Draft.inRow_placeAll _ _ _ _, rfl⟩)
    · exact Or.inl (Or.inl trivial)
    · exact Or.inl (Or.inr ⟨_, Draft.inRow_placeAll _ _ _ _, rfl⟩)
  obtain ⟨⟨-, hwindow, -⟩, -, hinLog⟩ := fetches_within_window hend hl
  rw [hmax] at hwindow
  obtain ⟨heq, -⟩ := hinLog hlog
  rw [hbase, hfetched] at heq
  exact ⟨l, hl, hposition, hfetched, hwindow, heq⟩

end Tenancy

end EventJournal
