import EventJournal.Proofs.Pipeline.Tenancy

/-!
# A pipeline at the end of its log

If the log stands still while a pipeline runs, and the handler makes of each event what it makes
of it, then it does not matter in which order anything happens: when nothing is under way and
nothing more is to be fetched, the run is where it has to be
(`EventJournal.Tenancy.standstill`). The frontier is right before the first event that the
handler cannot handle, and the run is ahead of it as far as it may be. So a run is held up by
nothing else than such an event.

Two things are known of the run meanwhile, apart from its ledger
(`EventJournal.PipelineLoop.Regular`): what it has fetched are the first of the events after the
position that it began after (`EventJournal.EventTable.Reached`), and all outcomes are those of the
handler.
-/

namespace EventJournal

/-! ### Where a run is in the log -/

/-- The position after which a run begins. -/
def Watch.base (t : EventTable) (w : Watch) : Option Nat :=
  w.resumed.bind fun row => t.positionOf row.event

namespace EventTable

/-- The events after a position. -/
def ahead (t : EventTable) (base : Option Nat) : List Event :=
  t.toList.filter fun e => base.all (· < e.position)

/-- **A run that began after a position** has fetched the first of the events after it, and has
come to a position. -/
structure Reached (t : EventTable) (base : Option Nat) (fetched : List Event)
    (position : Option Nat) : Prop where
  /-- The fetched events. -/
  initial : fetched <+: t.ahead base
  /-- The position of the last of them. -/
  position_eq : position = (lastPosition fetched).or base

variable {t : EventTable} {base position : Option Nat} {fetched : List Event}

theorem reached_nil (t : EventTable) (base : Option Nat) : t.Reached base [] base :=
  ⟨List.nil_prefix, rfl⟩

/-- **After the position comes the rest** of the events that are to be fetched. -/
theorem Reached.after_eq (h : t.Reached base fetched position) (ht : t.Coherent)
    {rest : List Event} (hrest : fetched ++ rest = t.ahead base) (limit : Nat) :
    t.after position limit = rest.take limit := by
  have hpairwise : (fetched ++ rest).Pairwise fun a b => a.position < b.position :=
    hrest ▸ ht.pairwise_toList.filter _
  have hlast := filter_lastPosition_lt hpairwise
  rw [hrest, ahead, List.filter_filter] at hlast
  rw [ht.after_eq, ← hlast]
  refine congrArg (List.take limit) (List.filter_congr fun e _ => ?_)
  rw [h.position_eq]
  cases hp : lastPosition fetched with
  | none => rfl
  | some p =>
    obtain ⟨x, hx, rfl⟩ := Option.map_eq_some_iff.mp hp
    -- the last of the fetched events is beyond the first position itself
    have hbase : base.all (· < x.position) = true :=
      (List.mem_filter.mp (h.initial.mem (List.mem_of_getLast? hx))).2
    cases base with
    | none => simp
    | some b =>
      have hlt : b < x.position := by simpa using hbase
      simp only [Option.some_or, Option.all_some]
      by_cases he : x.position < e.position
      · simp [he, hlt.trans he]
      · simp [he]

/-- A fetched batch that goes on with the log. -/
theorem Reached.fetch (h : t.Reached base fetched position) {events : List Event}
    (hmore : fetched ++ events <+: t.ahead base) :
    t.Reached base (fetched ++ events) ((lastPosition events).or position) := by
  refine ⟨hmore, ?_⟩
  rw [h.position_eq, lastPosition_append, Option.or_assoc]

end EventTable

/-- **What is known of the search for the first position**, if the log stands still. -/
def Resuming.Seeks (t : EventTable) (base : Option Nat) : Resuming → Prop :=
  Finds (fun event => base = t.positionOf event) (base = ·)

/-- The row that is found decides where the run begins. -/
theorem Resuming.seeks_asked (name : String) (fault : Option StoreError) (s : Store) :
    ((asking.next name).step fault asking s).1.Seeks s.events
      ((s.latestCheckpoint name).bind fun row => s.events.positionOf row.event) := by
  have hasking : asking.Seeks s.events
      ((s.latestCheckpoint name).bind fun row => s.events.positionOf row.event) := trivial
  refine Finds.step hasking ?_ ?_ (fun _ => id) fault
  · intro _ row hrow
    rw [hrow]
    rfl
  · intro _ hnone
    rw [hnone]
    rfl

/-- **What is known of a fetch**, if the log stands still. -/
def Reading.Continues (t : EventTable) (base : Option Nat) (fetched : List Event)
    (position : Option Nat) : Reading → Prop :=
  Brings (fun p _ => p = position) fun events => fetched ++ events <+: t.ahead base

theorem Reading.Continues.step {s : Store} {base position : Option Nat} {fetched : List Event}
    {reading : Reading} (h : reading.Continues s.events base fetched position)
    (hreached : s.events.Reached base fetched position) (hs : s.events.Coherent)
    (fault : Option StoreError) :
    (reading.next.step fault reading s).1.Continues s.events base fetched position := by
  refine Brings.step h (fun p limit hp => ?_) fault
  obtain ⟨rest, hrest⟩ := hreached.initial
  rw [hp, hreached.after_eq hs hrest, ← hrest]
  exact (List.prefix_append_right_inj _).mpr (List.take_prefix limit rest)

/-! ### Regular runs -/

/-- A loop that serves, if need be after it has fetched a batch or stored a row. -/
def LoopState.serves : LoopState → Bool
  | serving | fetching _ | marking _ _ false => true
  | _ => false

/-- **What a loop is at follows the log** when its run has come to a position. -/
def LoopState.Follows (t : EventTable) (base : Option Nat) (fetched : List Event)
    (position : Option Nat) : LoopState → Prop
  | resuming search => search.Seeks t base
  | fetching reading =>
    t.Reached base fetched position ∧ reading.Continues t base fetched position
  | serving | marking _ _ false => t.Reached base fetched position
  | _ => True

/-- **The outcomes of the dispatched elements are those of a handler.** -/
def PipelineRun.HandledBy (outcomeOf : Event → Outcome) (r : PipelineRun) : Prop :=
  ∀ a ∈ r.assigned, ∀ outcome, a.stage.outcome? = some outcome →
    outcome = outcomeOf a.element.event

namespace PipelineRun

variable {outcomeOf : Event → Outcome} {r : PipelineRun} {keyOf : Event → Uuid}
  {events : List Event} {counted : List (Element × Outcome)} {number : Nat} {outcome : Outcome}

/-- A dispatched element comes to a stage that its outcome allows. -/
theorem HandledBy.moveTo (h : r.HandledBy outcomeOf) (hledger : r.Ledger keyOf events counted)
    {a : Assignment} (ha : r.assignment? number = some a) {next : Stage}
    (hnext : ∀ outcome, next.outcome? = some outcome → outcome = outcomeOf a.element.event) :
    (r.moveTo number next).HandledBy outcomeOf := by
  intro b hb
  obtain ⟨c, hc, rfl⟩ := List.mem_map.mp hb
  split
  · next hnumber =>
    obtain rfl := hledger.eq_of_assigned ha hc hnumber
    exact hnext
  · exact h c hc

/-- **A worker goes on**, and if the handler returns it does so with its outcome. -/
theorem HandledBy.work (h : r.HandledBy outcomeOf) (hledger : r.Ledger keyOf events counted)
    (houtcome : ∀ a, r.assignment? number = some a → outcome = outcomeOf a.element.event) :
    (r.work number outcome).HandledBy outcomeOf ∧
      ∀ c ∈ r.counts? number, c.2 = outcomeOf c.1.event := by
  have hnothing : ∀ c ∈ (none : Option (Element × Outcome)), c.2 = outcomeOf c.1.event :=
    fun c hc => absurd hc (Option.not_mem_none c)
  rw [PipelineRun.work, counts?]
  cases ha : r.assignment? number with
  | none => exact ⟨h, hnothing⟩
  | some a =>
    obtain ⟨e, stage⟩ := a
    obtain ⟨hmem, rfl⟩ := assignment?_eq_some ha
    have hstage := h _ hmem
    cases stage with
    | waiting =>
      refine ⟨?_, hnothing⟩
      dsimp only
      split
      · exact h.moveTo hledger ha fun o ho => by cases ho
      · exact h
    | running =>
      refine ⟨h.moveTo hledger ha fun o ho => ?_, hnothing⟩
      rw [← Option.some.inj ho]
      exact houtcome _ ha
    | settled o =>
      refine ⟨?_, hnothing⟩
      have hmoved : (r.moveTo e.number (.announced o)).HandledBy outcomeOf :=
        h.moveTo hledger ha hstage
      dsimp only [announce]
      split <;> exact hmoved
    | announced o =>
      have hmoved : (r.moveTo e.number (.completed o)).HandledBy outcomeOf :=
        h.moveTo hledger ha hstage
      exact ⟨hmoved, hnothing⟩
    | completed o =>
      refine ⟨fun b hb => h b (List.mem_filter.mp hb).1, fun c hc => ?_⟩
      cases hc
      exact hstage o rfl

end PipelineRun

/-- What a loop does while it serves. -/
def LoopMove.isService : LoopMove → Bool
  | tick _ | dispatch | absorb => true
  | _ => false

namespace PipelineLoop

/-- **A run of which the outcomes are those of a handler**, and which follows a log that stands
still. -/
structure Regular (outcomeOf : Event → Outcome) (config : PipelineConfig) (t : EventTable)
    (w : Watch) (l : PipelineLoop) : Prop where
  /-- The settings. -/
  config_eq : l.run.config = config
  /-- Where the run is in the log. -/
  follows : l.state.Follows t (w.base t) w.fetched l.run.position
  /-- The outcomes of the dispatched elements. -/
  handledBy : l.run.HandledBy outcomeOf
  /-- The outcomes of the counted elements. -/
  counted : ∀ c ∈ w.counted, c.2 = outcomeOf c.1.event

variable {outcomeOf : Event → Outcome} {config : PipelineConfig} {t : EventTable} {w : Watch}
  {l : PipelineLoop}

theorem regular_start (outcomeOf : Event → Outcome) (config : PipelineConfig) (t : EventTable) :
    (start config).Regular outcomeOf config t {} :=
  ⟨rfl, trivial, nofun, nofun⟩

theorem Regular.reached (h : l.Regular outcomeOf config t w) (hs : l.state.serves = true) :
    t.Reached (w.base t) w.fetched l.run.position := by
  have hfollows := h.follows
  cases hstate : l.state with
  | serving => rwa [hstate] at hfollows
  | fetching reading =>
    rw [hstate] at hfollows
    exact hfollows.1
  | marking b marking isLast =>
    cases isLast with
    | false => rwa [hstate] at hfollows
    | true =>
      rw [hstate] at hs
      exact nomatch hs
  | _ =>
    rw [hstate] at hs
    exact nomatch hs

/-- The loop comes to another thing. -/
theorem Regular.goTo (h : l.Regular outcomeOf config t w) {state : LoopState}
    (hstate : state.Follows t (w.base t) w.fetched l.run.position) :
    (l.goTo state).Regular outcomeOf config t w :=
  ⟨h.config_eq, hstate, h.handledBy, h.counted⟩

theorem Regular.beginMarking (h : l.Regular outcomeOf config t w)
    (hreached : t.Reached (w.base t) w.fetched l.run.position) (isLast : Bool) :
    (l.beginMarking isLast).loop.Regular outcomeOf config t w := by
  rw [PipelineLoop.beginMarking]
  split
  · refine h.goTo ?_
    cases isLast with
    | false => exact hreached
    | true => trivial
  · dsimp only
    cases isLast with
    | false => exact h.goTo hreached
    | true => exact h.goTo trivial

theorem Regular.dispatch (h : l.Regular outcomeOf config t w) {e : Element} {run : PipelineRun}
    (hrun : l.run.dispatch? = some (e, run)) : { l with run }.Regular outcomeOf config t w := by
  rw [PipelineRun.dispatch?] at hrun
  split at hrun
  · cases hrun
    refine ⟨h.config_eq, h.follows, fun a ha => ?_, h.counted⟩
    rcases List.mem_append.mp ha with ha | ha
    · exact h.handledBy a ha
    · obtain rfl := List.mem_singleton.mp ha
      intro o ho
      cases ho
  · cases hrun

theorem Regular.absorb (h : l.Regular outcomeOf config t w) {run : PipelineRun}
    (hrun : l.run.absorb? = some run) : { l with run }.Regular outcomeOf config t w := by
  obtain ⟨hconfig, -, hposition, hassigned, -⟩ := PipelineRun.absorb?_frame hrun
  refine ⟨hconfig.trans h.config_eq, ?_, fun a ha => h.handledBy a (hassigned ▸ ha), h.counted⟩
  change l.state.Follows t (w.base t) w.fetched run.position
  rw [hposition]
  exact h.follows

/-- **Whatever the loop does without the store**, its run is regular, as long as it is not
stopped. -/
theorem Regular.react (h : l.Regular outcomeOf config t w) {move : LoopMove}
    (hmove : move.isService = true) : (l.react move).Regular outcomeOf config t w := by
  have hreacts := l.reacts_react move
  generalize l.react move = l' at hreacts ⊢
  cases hreacts with
  | hold => exact ⟨h.config_eq, h.follows, h.handledBy, h.counted⟩
  | fetch hs =>
    have hreached := h.reached (congrArg LoopState.serves hs)
    exact ⟨h.config_eq, ⟨hreached, rfl⟩, h.handledBy, h.counted⟩
  | dispatch hs hrun => exact h.dispatch hrun
  | absorb hs hrun => exact h.absorb hrun
  | note hs hrun =>
    have hregular := h.absorb hrun
    exact hregular.beginMarking (hregular.reached (congrArg LoopState.serves hs)) false
  | stop | cease | timeOut | close => cases hmove
  | idle => exact h

/-- **A worker goes on**, and if the handler returns it does so with its outcome. -/
theorem Regular.work (h : l.Regular outcomeOf config t w) {keyOf : Event → Uuid}
    (hledger : l.run.Ledger keyOf w.fetched w.counted) {number : Nat} {outcome : Outcome}
    (houtcome : ∀ a, l.run.assignment? number = some a → outcome = outcomeOf a.element.event) :
    (l.work number outcome).Regular outcomeOf config t (w.work number outcome l) := by
  obtain ⟨hhandled, hcounts⟩ := h.handledBy.work hledger houtcome
  have hsame := PipelineRun.work_sameProgress number outcome l.run
  refine ⟨hsame.config.trans h.config_eq, ?_, hhandled, fun c hc => ?_⟩
  · change l.state.Follows t (w.base t) w.fetched (l.run.work number outcome).position
    rw [hsame.position]
    exact h.follows
  · rcases List.mem_append.mp hc with hc | hc
    · exact h.counted c hc
    · exact hcounts c (Option.mem_toList.mp hc)

/-- **A step of the loop's procedure**, perhaps a failing one, leaves the run regular. -/
theorem Proceeds.regular {keyOf : Event → Uuid} {fault : Option StoreError} {s s' : Store}
    {w' : Watch} {l' : PipelineLoop} (hproceeds : l.Proceeds keyOf fault s w l' s' w')
    (h : l.Regular outcomeOf config s.events w) (hs : s.events.Coherent)
    (hresuming : l.state.Fits w l.run) : l'.Regular outcomeOf config s.events w' := by
  have hfollows := h.follows
  cases hproceeds with
  | ask hl search hsearch =>
    have hseeks := Resuming.seeks_asked l.run.config.name fault s
    rw [hsearch] at hseeks
    exact ⟨h.config_eq, hseeks, h.handledBy, h.counted⟩
  | seek hl hne hr =>
    rw [hl] at hfollows
    refine ⟨h.config_eq, ?_, h.handledBy, h.counted⟩
    exact Resuming.Finds.step hfollows (fun heq => absurd heq hne) (fun heq => absurd heq hne)
      (fun _ => id) fault
  | @begin search hl position hr =>
    rw [hl] at hfollows hresuming
    have hbase : w.base s.events = position := Resuming.Finds.of_result? hfollows hr
    refine ⟨h.config_eq, ?_, fun a ha => absurd ha List.not_mem_nil, h.counted⟩
    change s.events.Reached (w.base s.events) w.fetched position
    rw [hresuming.1, ← hbase]
    exact s.events.reached_nil _
  | refuse => exact h.goTo trivial
  | read hl hr =>
    rw [hl] at hfollows
    obtain ⟨hreached, hcontinues⟩ := hfollows
    refine ⟨h.config_eq, ⟨hreached, ?_⟩, h.handledBy, h.counted⟩
    exact hcontinues.step hreached hs fault
  | @fetch reading hl events hr =>
    rw [hl] at hfollows
    obtain ⟨hreached, hcontinues⟩ := hfollows
    obtain ⟨hconfig, -, -, hposition, hassigned⟩ := l.run.accept_frame keyOf events
    have hbrought : w.fetched ++ events <+: s.events.ahead (w.base s.events) :=
      Reading.Brings.of_result? hcontinues
        (fun _ _ => (List.append_nil w.fetched).symm ▸ hreached.initial) hr
    have hmore := hreached.fetch hbrought
    rw [← hposition] at hmore
    refine ⟨hconfig.trans h.config_eq, hmore, fun a ha => ?_, h.counted⟩
    exact h.handledBy a (hassigned ▸ ha)
  | miss hl hr =>
    rw [hl] at hfollows
    exact ⟨h.config_eq, hfollows.1, h.handledBy, h.counted⟩
  | @write b marking isLast hl hr =>
    rw [hl] at hfollows
    refine ⟨h.config_eq, ?_, h.handledBy, h.counted⟩
    cases isLast <;> exact hfollows
  | @mark b marking isLast hl result hr =>
    rw [hl] at hfollows
    cases result <;> cases isLast <;> exact ⟨h.config_eq, hfollows, h.handledBy, h.counted⟩
  | idle => exact h

end PipelineLoop

/-! ### When nothing is under way -/

namespace PipelineRun

variable {outcomeOf : Event → Outcome} {r : PipelineRun} {keyOf : Event → Uuid}
  {events : List Event} {counted : List (Element × Outcome)}

section Counted

variable (h : r.Ledger keyOf events counted) (hreleased : r.released = [])
  (hassigned : r.assigned = []) (hcounted : ∀ c ∈ counted, c.2 = outcomeOf c.1.event)

include h hreleased hassigned

/-- Each fetched event has been handled, once. -/
theorem Ledger.map_event_perm : (counted.map (·.1.event)).Perm events := by
  have hperm := (h.counted_perm hreleased hassigned).map (·.event)
  rw [List.map_map, map_event_numbered] at hperm
  exact hperm

include hcounted

/-- The handled elements are told apart by what the handler makes of their events. -/
theorem Ledger.filter_event_perm (p : Outcome → Bool) :
    ((counted.filter fun c => p c.2).map (·.1.event)).Perm
      (events.filter fun e => p (outcomeOf e)) := by
  have hsame : ∀ c ∈ counted, p c.2 = p (outcomeOf c.1.event) :=
    fun c hc => congrArg p (hcounted c hc)
  have hperm := (h.map_event_perm hreleased hassigned).filter fun e => p (outcomeOf e)
  rw [List.filter_map] at hperm
  rw [List.filter_congr hsame]
  exact hperm

/-- **The counters are those of the events.** -/
theorem Ledger.countP_eq (p : Outcome → Bool) :
    counted.countP (fun c => p c.2) = events.countP fun e => p (outcomeOf e) := by
  have hlength := (h.filter_event_perm hreleased hassigned hcounted p).length_eq
  rwa [List.length_map, ← List.countP_eq_length_filter, ← List.countP_eq_length_filter] at hlength

variable (hprocessed : r.processed = [])

include hprocessed

/-- What has finished are the events that the handler can handle. -/
theorem Ledger.finished_iff_isSuccess {n : Nat} (hn : 0 < n) :
    r.frontier.Finished n ↔
      ∃ e, events[n - 1]? = some e ∧ (outcomeOf e).isSuccess = true := by
  have hperm := h.counted_perm hreleased hassigned
  rw [h.finished_iff hassigned hprocessed hn]
  constructor
  · rintro ⟨c, hc, hs, rfl⟩
    obtain ⟨i, hi, hnumber, -⟩ := mem_numbered_iff.mp (hperm.mem_iff.mp (List.mem_map_of_mem hc))
    refine ⟨c.1.event, ?_, hcounted c hc ▸ hs⟩
    rw [hnumber]
    exact hi
  · rintro ⟨e, he, hs⟩
    have hmem : (⟨n, keyOf e, e⟩ : Element) ∈ numbered keyOf events :=
      mem_numbered_iff.mpr ⟨n - 1, he, by simp only; omega, rfl⟩
    obtain ⟨c, hc, heq⟩ := List.mem_map.mp (hperm.mem_iff.mpr hmem)
    refine ⟨c, hc, ?_, congrArg Element.number heq⟩
    rw [hcounted c hc, heq]
    exact hs

/-- **The frontier is right before the first event that the handler cannot handle.** -/
theorem Ledger.position_eq_findIdx :
    r.frontier.position = events.findIdx fun e => !(outcomeOf e).isSuccess := by
  refine h.tight.position_eq (fun n hn hle => ?_) fun hfinished => ?_
  · have hlt : n - 1 < events.findIdx fun e => !(outcomeOf e).isSuccess := by omega
    have hlength := hlt.trans_le List.findIdx_le_length
    refine (h.finished_iff_isSuccess hreleased hassigned hcounted hprocessed hn).mpr
      ⟨events[n - 1], List.getElem?_eq_getElem hlength, ?_⟩
    simpa using List.not_of_lt_findIdx hlt
  · obtain ⟨e, he, hs⟩ := (h.finished_iff_isSuccess hreleased hassigned hcounted hprocessed
      (Nat.succ_pos _)).mp hfinished
    obtain ⟨hlt, hget⟩ := List.getElem?_eq_some_iff.mp he
    have hfails := List.findIdx_getElem (w := hlt)
    have hfound : (!(outcomeOf e).isSuccess) = true := hget ▸ hfails
    rw [hs] at hfound
    exact nomatch hfound

end Counted

/-- **How far a run is ahead of its frontier** when nothing more is to be fetched: as far as it
may be, unless there is nothing more. -/
theorem ahead_or_nothing {rest : List Event} (hvalid : r.config.fault? = none)
    (hle : r.frontier.position ≤ r.fetched)
    (hfetched : r.fetched ≤ r.frontier.position + r.config.maxInFlight)
    (hrest : ∀ limit, r.limit? = some limit → rest.take limit = []) :
    r.fetched = r.frontier.position + r.config.maxInFlight ∨ rest = [] := by
  obtain ⟨hbatch, -, -⟩ := PipelineConfig.pos_of_fault? hvalid
  by_cases hroom : r.room = 0
  · left
    rw [room, inFlight] at hroom
    omega
  · right
    have hnone := hrest _ (if_neg hroom)
    refine (List.take_eq_nil_iff.mp hnone).resolve_left ?_
    omega

end PipelineRun

namespace Tenancy

/-! ### While the log stands still -/

/-- **What can happen while the log stands still** and the run is not stopped. -/
inductive Turn
  /-- Another user of the store makes a call that stores no events. -/
  | call (call : Call)
  /-- The loop takes a step of the procedure that it is at, the call of which may fail. -/
  | proceed (fault : Option StoreError)
  /-- The loop does something without the store. -/
  | react (move : LoopMove)
  /-- The worker of the element with a number goes on. -/
  | work (number : Nat)

variable (outcomeOf : Event → Outcome)

/-- What a handler makes of the element with a number. -/
def outcome (number : Nat) (t : Tenancy) : Outcome :=
  match t.loop.bind (·.run.assignment? number) with
  | some a => outcomeOf a.element.event
  | none => .failed

/-- **One turn**, if it is possible; otherwise nothing happens. -/
def turn (x : Turn) (t : Tenancy) : Tenancy :=
  match x with
  | .call call => if call.keepsLog then t.act (.call call) else t
  | .proceed fault => t.act (.proceed fault)
  | .react move => if move.isService then t.act (.react move) else t
  | .work number => t.act (.work number (t.outcome outcomeOf number))

/-- One turn after another. -/
def turns (xs : List Turn) (t : Tenancy) : Tenancy := xs.foldl (fun t x => t.turn outcomeOf x) t

/-- **The invariant while the log stands still.** -/
structure Still (config : PipelineConfig) (t : Tenancy) : Prop where
  /-- The invariant of all histories. -/
  steady : t.Steady
  /-- The log. -/
  coherent : t.store.events.Coherent
  /-- The run has not given up on its elements. -/
  timedOut : t.watch.timedOut = false
  /-- The run is regular. -/
  regular : ∀ l, t.loop = some l → l.Regular outcomeOf config t.store.events t.watch

variable {outcomeOf} {config : PipelineConfig} {t : Tenancy}

/-- **Whatever happens next**, the indexes describe the events. -/
theorem act_coherent (h : t.store.events.Coherent) (move : Move) :
    (t.act move).store.events.Coherent := by
  have hacts := t.acts_act move
  generalize t.act move = t' at hacts ⊢
  cases hacts with
  | call => exact Call.perform_coherent _ h
  | proceed hl hproceeds => exact hproceeds.events_eq ▸ h
  | _ => exact h

theorem run_coherent (h : t.store.events.Coherent) (moves : List Move) :
    (t.run moves).store.events.Coherent := by
  induction moves generalizing t with
  | nil => exact h
  | cons move rest ih => exact ih (act_coherent h move)

/-- A run begins, whatever the log holds. -/
theorem still_launch (outcomeOf : Event → Outcome) (hsteady : t.Steady)
    (hcoherent : t.store.events.Coherent) (hname : config.name = t.name)
    (hvalid : config.fault? = none) (hidle : t.isIdle = true) (keyOf : Event → Uuid) :
    (t.act (.launch config keyOf)).Still outcomeOf config := by
  have hsteady' := hsteady.act (.launch config keyOf)
  have hlaunch : t.act (.launch config keyOf) =
      { t with loop := some (.start config), keyOf, watch := {} } := by
    simp only [act]
    exact if_pos ⟨hname, hvalid, hidle⟩
  rw [hlaunch] at hsteady' ⊢
  refine ⟨hsteady', hcoherent, rfl, fun l hl => ?_⟩
  cases hl
  exact PipelineLoop.regular_start outcomeOf config t.store.events

/-- Another user makes a call that stores no events. -/
theorem Still.call (h : t.Still outcomeOf config) {call : Call} (hkeeps : call.keepsLog = true) :
    (t.act (.call call)).Still outcomeOf config := by
  have hsteady := h.steady.act (.call call)
  have hcoherent := act_coherent h.coherent (.call call)
  have hacts := t.acts_act (.call call)
  generalize t.act (.call call) = t' at hsteady hcoherent hacts ⊢
  cases hacts with
  | call =>
    refine ⟨hsteady, hcoherent, h.timedOut, fun l hl => ?_⟩
    exact (Call.events_of_keepsLog hkeeps t.store).symm ▸ h.regular l hl
  | idle => exact h

/-- The loop takes a step of its procedure. -/
theorem Still.proceed (h : t.Still outcomeOf config) (fault : Option StoreError) :
    (t.act (.proceed fault)).Still outcomeOf config := by
  have hsteady := h.steady.act (.proceed fault)
  have hcoherent := act_coherent h.coherent (.proceed fault)
  have hacts := t.acts_act (.proceed fault)
  generalize t.act (.proceed fault) = t' at hsteady hcoherent hacts ⊢
  cases hacts with
  | @proceed l _ hl _ _ _ hproceeds =>
    have hfits := (h.steady.exact l hl h.timedOut).fits
    have hregular := hproceeds.regular (h.regular l hl) h.coherent hfits
    rw [← hproceeds.events_eq] at hregular
    refine ⟨hsteady, hcoherent, hproceeds.timedOut_eq.trans h.timedOut, fun l' hl' => ?_⟩
    cases hl'
    exact hregular
  | idle => exact h

/-- The loop does something while it serves. -/
theorem Still.react (h : t.Still outcomeOf config) {move : LoopMove}
    (hmove : move.isService = true) : (t.act (.react move)).Still outcomeOf config := by
  have hsteady := h.steady.act (.react move)
  have hacts := t.acts_act (.react move)
  generalize t.act (.react move) = t' at hsteady hacts ⊢
  cases hacts with
  | @react l hl =>
    have hwatch : t.watch.react move l = t.watch := by
      cases move <;> first | rfl | exact nomatch hmove
    rw [hwatch] at hsteady ⊢
    refine ⟨hsteady, h.coherent, h.timedOut, fun l' hl' => ?_⟩
    cases hl'
    exact (h.regular l hl).react hmove
  | idle => exact h

/-- A worker goes on. -/
theorem Still.work (h : t.Still outcomeOf config) (number : Nat) :
    (t.act (.work number (t.outcome outcomeOf number))).Still outcomeOf config := by
  have hsteady := h.steady.act (.work number (t.outcome outcomeOf number))
  have hacts := t.acts_act (.work number (t.outcome outcomeOf number))
  generalize t.act (.work number (t.outcome outcomeOf number)) = t' at hsteady hacts ⊢
  cases hacts with
  | @work l hl =>
    refine ⟨hsteady, h.coherent, h.timedOut, fun l' hl' => ?_⟩
    cases hl'
    refine (h.regular l hl).work (h.steady.exact l hl h.timedOut).ledger fun a ha => ?_
    simp [outcome, hl, ha]
  | idle => exact h

/-- **Whatever happens next**, if the log stands still. -/
theorem Still.turn (h : t.Still outcomeOf config) (x : Turn) :
    (t.turn outcomeOf x).Still outcomeOf config := by
  unfold Tenancy.turn
  split
  · split
    · next hkeeps => exact h.call hkeeps
    · exact h
  · exact h.proceed _
  · split
    · next hmove => exact h.react hmove
    · exact h
  · exact h.work _

/-- **Whatever happens**, in any order, if the log stands still. -/
theorem Still.turns (h : t.Still outcomeOf config) (xs : List Turn) :
    (t.turns outcomeOf xs).Still outcomeOf config := by
  induction xs generalizing t with
  | nil => exact h
  | cons x rest ih => exact ih (h.turn x)

/-- **A run is held up by nothing but an event that cannot be handled.** Whatever has happened
before a run with sensible settings begins, and in whatever order its loop, its workers and the
other users of the store go on while the log stands still: when no element is under way, both
channels are empty, and the next fetch would bring nothing, then the frontier is right before the
first event ahead that the handler cannot handle, or at the end if there is none; the run has
fetched as far as it may beyond; and of what it has fetched the handled events and the others are
those that the handler can handle and cannot. -/
theorem standstill {config : PipelineConfig} (hvalid : config.fault? = none) (before : List Move)
    (hidle : ((start config.name).run before).isIdle = true) (keyOf : Event → Uuid)
    (outcomeOf : Event → Outcome) (xs : List Turn) {t : Tenancy}
    (ht : (((start config.name).run before).act (.launch config keyOf)).turns outcomeOf xs = t)
    {l : PipelineLoop} (hl : t.loop = some l) (hserves : l.state.serves = true)
    (hassigned : l.run.assigned = []) (hreleased : l.run.released = [])
    (hprocessed : l.run.processed = [])
    (hnothing : ∀ limit, l.run.limit? = some limit →
      t.store.events.after l.run.position limit = []) :
    let ahead := t.store.events.ahead (t.watch.base t.store.events)
    let first := ahead.findIdx fun e => !(outcomeOf e).isSuccess
    l.run.frontier.position = first ∧
      l.run.fetched = min ahead.length (first + config.maxInFlight) ∧
      ((t.watch.counted.filter (·.2.isSuccess)).map (·.1.event)).Perm
        ((ahead.take l.run.fetched).filter fun e => (outcomeOf e).isSuccess) ∧
      l.run.stats.processed = (ahead.take l.run.fetched).countP (fun e => (outcomeOf e).isSuccess) ∧
      l.run.stats.failed = (ahead.take l.run.fetched).countP fun e => !(outcomeOf e).isSuccess := by
  intro ahead first
  have hsteady := (steady_start config.name).run before
  have hcoherent := run_coherent EventTable.coherent_empty before (t := start config.name)
  have hname := run_name before (start config.name)
  have hstill :=
    (still_launch outcomeOf hsteady hcoherent hname.symm hvalid hidle keyOf).turns xs
  rw [ht] at hstill
  have hexact := hstill.steady.exact l hl hstill.timedOut
  have hregular := hstill.regular l hl
  have hledger := hexact.ledger
  have hreached := hregular.reached hserves
  have hcounted := hregular.counted
  obtain ⟨rest, hrest⟩ := hreached.initial
  have hahead : t.watch.fetched ++ rest = ahead := hrest
  have hfetched := hledger.fetched_eq
  have htake : ahead.take l.run.fetched = t.watch.fetched := by
    rw [hfetched, ← hahead, List.take_left]
  have hposition := hledger.position_eq_findIdx hreleased hassigned hcounted hprocessed
  -- the run has gone as far as it may, or there is nothing more
  have hfar : l.run.fetched = l.run.frontier.position + config.maxInFlight ∨ rest = [] := by
    rw [← hregular.config_eq]
    refine PipelineRun.ahead_or_nothing hexact.valid ?_ ?_ fun limit hlimit => ?_
    · exact hfetched ▸ hledger.position_le
    · exact hfetched ▸ hexact.window
    · rw [← hreached.after_eq hstill.coherent hrest limit]
      exact hnothing limit hlimit
  have hfirst : l.run.frontier.position = ahead.findIdx fun e => !(outcomeOf e).isSuccess := by
    rw [hposition, ← hahead]
    rcases hfar with hfar | rfl
    · have hpos := (PipelineConfig.pos_of_fault? hvalid).2.2
      have hlt : t.watch.fetched.findIdx (fun e => !(outcomeOf e).isSuccess) <
          t.watch.fetched.length := by omega
      rw [List.findIdx_append, if_pos hlt]
    · rw [List.append_nil]
  have hwindow := hexact.window
  rw [hregular.config_eq] at hwindow
  have hlength : ahead.length = t.watch.fetched.length + rest.length := by
    rw [← hahead, List.length_append]
  refine ⟨hfirst, ?_, ?_, ?_, ?_⟩
  · rcases hfar with hfar | rfl
    · omega
    · rw [List.length_nil] at hlength
      omega
  · rw [htake]
    exact hledger.filter_event_perm hreleased hassigned hcounted Outcome.isSuccess
  · rw [htake, hledger.processed_eq]
    exact hledger.countP_eq hreleased hassigned hcounted Outcome.isSuccess
  · rw [htake, hledger.failed_eq]
    exact hledger.countP_eq hreleased hassigned hcounted fun o => !o.isSuccess

/-- Six events, of which the pipeline is done with the first. -/
def sixEvents : List Move :=
  [.call (.commitEvents Sequence.events (Draft.placeAll (.ofNat 7) 0 1
      ([1, 2, 3, 4, 5, 6].map fun n => .ofBytes (.ofNat n) .epoch "" []))),
    .call (.insertCheckpoint ⟨"a", .ofNat 1, 0, .epoch⟩)]

/-- A handler that cannot handle the fourth event. -/
def fourthFails (e : Event) : Outcome := if e.id = .ofNat 4 then .panicked else .succeeded

/-- Turns in which two events are fetched and handled, the second of them first, a row is stored,
and two more are fetched and handled. -/
def busyTurns : List Turn :=
  List.flatten
    [List.replicate 3 (.proceed none), [.react (.tick 0), .proceed none, .proceed none,
      .react .dispatch, .react .dispatch],
    List.replicate 5 (.work 2), List.replicate 5 (.work 1), [.react .absorb, .react .absorb],
    List.replicate 8 (.proceed none), [.react (.tick 1), .proceed none, .proceed none,
      .react .dispatch, .react .dispatch],
    List.replicate 5 (.work 4), List.replicate 5 (.work 3), [.react .absorb, .react (.tick 2)]]

/-- The settings of a run that is at most two elements ahead. -/
def narrow : PipelineConfig :=
  { name := "a", batchSize := 2, maxInFlight := 2, checkpointThreshold := 1 }

/-- The pipeline after these turns. -/
def stalled : Tenancy :=
  (((start "a").run sixEvents).act (.launch narrow Event.id)).turns fourthFails busyTurns

theorem standstill_stalled :
    ∃ l, stalled.loop = some l ∧ l.run.frontier.position = 2 ∧ l.run.fetched = 4 ∧
      l.run.stats.processed = 3 ∧ l.run.stats.failed = 1 := by
  have hidle : ((start narrow.name).run sixEvents).isIdle = true := by decide +kernel
  have hend : (((start narrow.name).run sixEvents).act (.launch narrow Event.id)).turns
      fourthFails busyTurns = stalled := by rw [stalled, narrow]
  obtain ⟨l, hl, hquiet⟩ : ∃ l, stalled.loop = some l ∧
      (l.state.serves, l.run.assigned, l.run.released, l.run.processed, l.run.limit?) =
        (true, [], [], [], none) := Option.map_eq_some_iff.mp (by decide +kernel)
  simp only [Prod.mk.injEq] at hquiet
  obtain ⟨hserves, hassigned, hreleased, hprocessed, hlimit⟩ := hquiet
  have hnothing : ∀ limit, l.run.limit? = some limit →
      stalled.store.events.after l.run.position limit = [] := by
    rw [hlimit]
    exact nofun
  obtain ⟨hposition, hfetched, -, hsucceeded, hfailed⟩ :=
    standstill (by decide) sixEvents hidle Event.id fourthFails busyTurns hend hl hserves hassigned
      hreleased hprocessed hnothing
  have hfour : l.run.fetched = 4 := hfetched.trans (by decide +kernel)
  rw [hfour] at hsucceeded hfailed
  exact ⟨l, hl, hposition.trans (by decide +kernel), hfour, hsucceeded.trans (by decide +kernel),
    hfailed.trans (by decide +kernel)⟩

end Tenancy

end EventJournal
