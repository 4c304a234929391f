import EventJournal.Proofs.Pipeline.Standstill

/-!
# Rows that go up the log

A pipeline never goes back. A run takes up the latest row, begins after the event that the row
names, and fetches events that come one after another from there on, whatever others append
meanwhile (`EventJournal.PipelineLoop.Ascends`). What it notes are events that it has fetched, each
beyond the one before; so the rows of a pipeline name events at ever greater positions, over all of
its runs (`EventJournal.Store.Forward`).

| it is enough that | since |
|---|---|
| no event is lost or moved | a row names the same position later on |
| a fetch reads after the last position | what it brings comes after all that was fetched |
| a run begins after the latest row | what it fetches comes after what earlier runs have noted |

Nothing is asked of what others write. Between two fetches events may come in at any position; the
run does not see those that it has passed.
-/

namespace EventJournal

/-! ### Events that go up -/

namespace EventTable

variable {t u : EventTable} {base : Option Nat} {events : List Event}

/-- A position that is known stays what it is as long as no event is lost. -/
theorem Coherent.positionOf_mono (ht : t.Coherent) (hu : u.Coherent)
    (hkeeps : ∀ e ∈ t.toList, e ∈ u.toList) {id : Uuid} {p : Nat}
    (h : t.positionOf id = some p) : u.positionOf id = some p := by
  obtain ⟨e, he, hid, hp⟩ := ht.positionOf_eq_some_iff.mp h
  exact hu.positionOf_eq_some_iff.mpr ⟨e, hkeeps e he, hid, hp⟩

/-- **Events that go up from a position**: each comes after it, and after those before. -/
structure Ascends (t : EventTable) (base : Option Nat) (events : List Event) : Prop where
  /-- Each comes after those before. -/
  pairwise : events.Pairwise fun a b => a.position < b.position
  /-- They are in the log. -/
  stored : ∀ e ∈ events, e ∈ t.toList
  /-- They come after the position. -/
  beyond : ∀ e ∈ events, base.all (· < e.position) = true

theorem ascends_nil (t : EventTable) (base : Option Nat) : t.Ascends base [] :=
  ⟨List.Pairwise.nil, nofun, nofun⟩

theorem Ascends.mono (h : t.Ascends base events) (hkeeps : ∀ e ∈ t.toList, e ∈ u.toList) :
    u.Ascends base events :=
  ⟨h.pairwise, fun e he => hkeeps e (h.stored e he), h.beyond⟩

/-- What is read after a position goes up from there. -/
theorem Coherent.ascends_after (h : t.Coherent) (position : Option Nat) (limit : Nat) :
    t.Ascends position (t.after position limit) := by
  rw [h.after_eq]
  refine ⟨(h.pairwise_toList.filter _).sublist (List.take_sublist _ _), fun e he => ?_,
    fun e he => ?_⟩
  · exact (List.mem_filter.mp (List.mem_of_mem_take he)).1
  · exact (List.mem_filter.mp (List.mem_of_mem_take he)).2

/-- **What goes up from the last event goes on with the events.** -/
theorem Ascends.append (h : t.Ascends base events) {more : List Event}
    (hmore : t.Ascends ((lastPosition events).or base) more) : t.Ascends base (events ++ more) := by
  cases hp : lastPosition events with
  | none =>
    obtain rfl : events = [] := by simpa [lastPosition] using hp
    exact hmore
  | some p =>
    rw [hp] at hmore
    have hmoreLt : ∀ b ∈ more, p < b.position := by
      intro b hb
      simpa using hmore.beyond b hb
    have hpairwise : (events ++ []).Pairwise fun a b : Event => a.position < b.position := by
      rw [List.append_nil]
      exact h.pairwise
    obtain ⟨hle, -⟩ := lastPosition_parts hpairwise hp
    obtain ⟨x, hx, rfl⟩ := Option.map_eq_some_iff.mp hp
    have hbase := h.beyond x (List.mem_of_getLast? hx)
    refine ⟨List.pairwise_append.mpr ⟨h.pairwise, hmore.pairwise, ?_⟩, ?_, ?_⟩
    · intro a ha b hb
      exact (hle a ha).trans_lt (hmoreLt b hb)
    · exact List.forall_mem_append.mpr ⟨h.stored, hmore.stored⟩
    · refine List.forall_mem_append.mpr ⟨h.beyond, fun b hb => ?_⟩
      have hlt := hmoreLt b hb
      cases base with
      | none => rfl
      | some q => exact decide_eq_true ((of_decide_eq_true hbase).trans hlt)

end EventTable

/-! ### Runs that go up -/

/-- **What a loop is at goes up from a base**, when its run has fetched events and has come to a
position. -/
def LoopState.Ascends (t : EventTable) (base : Option Nat) (fetched : List Event)
    (position : Option Nat) : LoopState → Prop
  | resuming search => fetched = [] ∧
      search.Finds (fun event => ∃ p, t.positionOf event = some p ∧ base = some p) (base = ·)
  | fetching reading => position = (lastPosition fetched).or base ∧
      reading.Brings (fun p _ => p = position) (t.Ascends position)
  | serving | marking _ _ false => position = (lastPosition fetched).or base
  | _ => True

/-- **A run that goes up** from the row that it took up. -/
structure PipelineLoop.Ascends (t : EventTable) (w : Watch) (l : PipelineLoop) : Prop where
  /-- The event that the row names is in the log. -/
  resumed : ∀ row, w.resumed = some row → ∃ p, t.positionOf row.event = some p
  /-- The fetched events. -/
  fetched : t.Ascends (w.base t) w.fetched
  /-- What the loop is at. -/
  state : l.state.Ascends t (w.base t) w.fetched l.run.position

namespace PipelineLoop

variable {t u : EventTable} {w w' : Watch} {l : PipelineLoop}

theorem ascends_start (config : PipelineConfig) (t : EventTable) : (start config).Ascends t {} :=
  ⟨nofun, t.ascends_nil _, ⟨rfl, trivial⟩⟩

/-- **Others may append** while a run goes up. -/
theorem Ascends.mono (h : l.Ascends t w) (ht : t.Coherent) (hu : u.Coherent)
    (hkeeps : ∀ e ∈ t.toList, e ∈ u.toList) : l.Ascends u w := by
  have hposition : ∀ {id p}, t.positionOf id = some p → u.positionOf id = some p :=
    ht.positionOf_mono hu hkeeps
  -- the row that was taken up names an event whose position stays
  have hbase : w.base u = w.base t := by
    rw [Watch.base, Watch.base]
    cases hrow : w.resumed with
    | none => rfl
    | some row =>
      obtain ⟨p, hp⟩ := h.resumed row hrow
      exact (hposition hp).trans hp.symm
  refine ⟨fun row hrow => (h.resumed row hrow).imp fun _ => hposition, ?_, ?_⟩
  · rw [hbase]
    exact h.fetched.mono hkeeps
  · rw [hbase]
    have hstate := h.state
    cases hs : l.state with
    | resuming search =>
      rw [hs] at hstate
      exact ⟨hstate.1, hstate.2.mono (fun event ⟨p, hp, heq⟩ => ⟨p, hposition hp, heq⟩)
        fun _ => id⟩
    | fetching reading =>
      rw [hs] at hstate
      exact ⟨hstate.1, hstate.2.mono fun _ hevents => hevents.mono hkeeps⟩
    | marking b marking isLast =>
      rw [hs] at hstate
      cases isLast with
      | false => exact hstate
      | true => trivial
    | serving =>
      rw [hs] at hstate
      exact hstate
    | _ => trivial

/-- Only the row that was taken up and the fetched events matter of what was seen. -/
theorem Ascends.congr (h : l.Ascends t w) (hresumed : w'.resumed = w.resumed)
    (hfetched : w'.fetched = w.fetched) : l.Ascends t w' := by
  have hbase : w'.base t = w.base t := by rw [Watch.base, hresumed, Watch.base]
  refine ⟨?_, ?_, ?_⟩
  · rw [hresumed]
    exact h.resumed
  · rw [hbase, hfetched]
    exact h.fetched
  · rw [hbase, hfetched]
    exact h.state

/-- The loop comes to another thing. -/
theorem Ascends.goTo (h : l.Ascends t w) {state : LoopState}
    (hstate : state.Ascends t (w.base t) w.fetched l.run.position) :
    (l.goTo state).Ascends t w := ⟨h.resumed, h.fetched, hstate⟩

/-- The run goes on, and fetches nothing. -/
theorem Ascends.withRun (h : l.Ascends t w) {run : PipelineRun}
    (hposition : run.position = l.run.position) : { l with run }.Ascends t w := by
  refine ⟨h.resumed, h.fetched, ?_⟩
  rw [hposition]
  exact h.state

/-- Where a run that may fetch again has come to. -/
theorem Ascends.position_eq (h : l.Ascends t w) (hs : l.state.serves = true) :
    l.run.position = (lastPosition w.fetched).or (w.base t) := by
  have hstate := h.state
  cases hl : l.state with
  | serving => rwa [hl] at hstate
  | fetching reading =>
    rw [hl] at hstate
    exact hstate.1
  | marking b marking isLast =>
    cases isLast with
    | false => rwa [hl] at hstate
    | true =>
      rw [hl] at hs
      exact nomatch hs
  | _ =>
    rw [hl] at hs
    exact nomatch hs

/-- A loop that has noted its progress, or could not, or is to begin, serves again or ends. -/
theorem Ascends.goOn (h : l.Ascends t w) {isLast : Bool}
    (hposition : isLast = false → l.run.position = (lastPosition w.fetched).or (w.base t)) :
    (if isLast then l.finish else l.goTo .serving).Ascends t w := by
  cases isLast with
  | false => exact h.goTo (hposition rfl)
  | true => exact h.goTo trivial

theorem Ascends.beginMarking (h : l.Ascends t w) {isLast : Bool}
    (hposition : isLast = false → l.run.position = (lastPosition w.fetched).or (w.base t)) :
    (l.beginMarking isLast).loop.Ascends t w := by
  rw [PipelineLoop.beginMarking]
  split
  · refine h.goTo ?_
    cases isLast with
    | false => exact hposition rfl
    | true => trivial
  · exact h.goOn hposition

/-- **Whatever the loop does without the store**, its run goes up. -/
theorem Ascends.react (h : l.Ascends t w) (move : LoopMove) :
    (l.react move).Ascends t (w.react move l) := by
  have hreact : (l.react move).Ascends t w := by
    have hreacts := l.reacts_react move
    generalize l.react move = l' at hreacts ⊢
    cases hreacts with
    | hold => exact h.withRun rfl
    | fetch hs =>
      exact ⟨h.resumed, h.fetched, h.position_eq (congrArg LoopState.serves hs), rfl⟩
    | dispatch hs hrun => exact h.withRun (PipelineRun.dispatch?_sameProgress hrun).position
    | absorb hs hrun => exact h.withRun (PipelineRun.absorb?_frame hrun).2.2.1
    | note hs hrun =>
      have hascends := h.withRun (PipelineRun.absorb?_frame hrun).2.2.1
      exact hascends.beginMarking fun _ => hascends.position_eq (congrArg LoopState.serves hs)
    | stop | cease => exact h.goTo trivial
    | timeOut => exact ⟨h.resumed, h.fetched, trivial⟩
    | close =>
      rw [PipelineLoop.close]
      dsimp only
      have hclosed : { l with run := l.run.absorbAll }.Ascends t w := h.withRun rfl
      split
      · exact hclosed.beginMarking fun hlast => by cases hlast
      · exact hclosed.goTo trivial
    | idle => exact h
  -- nothing that was seen of the loop is of concern
  unfold Watch.react
  split
  · exact hreact.congr rfl rfl
  · exact hreact

theorem Ascends.work (h : l.Ascends t w) (number : Nat) (outcome : Outcome) :
    (l.work number outcome).Ascends t (w.work number outcome l) :=
  (h.withRun (PipelineRun.work_sameProgress number outcome l.run).position).congr rfl rfl

/-- What is known of a search that has just asked for the latest row: the run is to begin after the
event that the row names. -/
theorem finds_asked {s : Store} {name : String}
    (hlocated : ∀ row, s.latestCheckpoint name = some row →
      ∃ p, s.events.positionOf row.event = some p) (fault : Option StoreError) :
    ((Resuming.asking.next name).step fault .asking s).1.Finds
      (fun event => ∃ p, s.events.positionOf event = some p ∧
        ((s.latestCheckpoint name).bind fun row => s.events.positionOf row.event) = some p)
      (((s.latestCheckpoint name).bind fun row => s.events.positionOf row.event) = ·) := by
  have hasking : Resuming.asking.Finds (fun event => ∃ p, s.events.positionOf event = some p ∧
        ((s.latestCheckpoint name).bind fun row => s.events.positionOf row.event) = some p)
      (((s.latestCheckpoint name).bind fun row => s.events.positionOf row.event) = ·) := trivial
  refine hasking.step (fun _ row hrow => ?_) (fun _ hnone => ?_) (fun event hevent => ?_) fault
  · obtain ⟨p, hp⟩ := hlocated row hrow
    rw [hrow]
    exact ⟨p, hp, hp⟩
  · rw [hnone]
    rfl
  · obtain ⟨p, hp, heq⟩ := hevent
    rw [heq, hp]

/-- **A step of the loop's procedure**, perhaps a failing one, leaves the run going up, if the rows
of the pipeline name events of the log. -/
theorem Proceeds.ascends {keyOf : Event → Uuid} {fault : Option StoreError} {s s' : Store}
    {l' : PipelineLoop} (hproceeds : l.Proceeds keyOf fault s w l' s' w')
    (h : l.Ascends s.events w) (hs : s.events.Coherent)
    (hrows : ∀ row ∈ s.rowsOf l.run.config.name, ∃ p, s.events.positionOf row.event = some p) :
    l'.Ascends s.events w' := by
  have hstate := h.state
  cases hproceeds with
  | ask hl search hsearch =>
    rw [hl] at hstate
    have hlocated : ∀ row, s.latestCheckpoint l.run.config.name = some row →
        ∃ p, s.events.positionOf row.event = some p := fun row hrow =>
      hrows row (mem_of_lastGreatest hrow)
    have hfinds := finds_asked hlocated fault
    rw [hsearch] at hfinds
    refine ⟨hlocated, ?_, hstate.1, hfinds⟩
    change s.events.Ascends _ w.fetched
    rw [hstate.1]
    exact s.events.ascends_nil _
  | seek hl hne hr =>
    rw [hl] at hstate
    obtain ⟨hnil, hfinds⟩ := hstate
    refine h.goTo ⟨hnil, hfinds.step (fun heq => absurd heq hne) (fun heq => absurd heq hne)
      (fun event hevent => ?_) fault⟩
    obtain ⟨p, hp, heq⟩ := hevent
    rw [heq, hp]
  | @begin search hl position hr =>
    rw [hl] at hstate
    obtain ⟨hnil, hfinds⟩ := hstate
    have hbase : w.base s.events = position := hfinds.of_result? hr
    refine ⟨h.resumed, h.fetched, ?_⟩
    change position = (lastPosition w.fetched).or (w.base s.events)
    rw [hnil, hbase]
    rfl
  | refuse => exact h.goTo trivial
  | read hl hr =>
    rw [hl] at hstate
    obtain ⟨hposition, hbrings⟩ := hstate
    refine h.goTo ⟨hposition, hbrings.step (fun p limit hp => ?_) fault⟩
    rw [← hp]
    exact hs.ascends_after p limit
  | @fetch reading hl events hr =>
    rw [hl] at hstate
    obtain ⟨hposition, hbrings⟩ := hstate
    have hmore := hbrings.of_result? (fun _ _ => s.events.ascends_nil _) hr
    rw [hposition] at hmore
    refine ⟨h.resumed, h.fetched.append hmore, ?_⟩
    change (l.run.accept keyOf events).position =
      (lastPosition (w.fetched ++ events)).or (w.base s.events)
    rw [(l.run.accept_frame keyOf events).2.2.2.1, hposition, lastPosition_append, Option.or_assoc]
  | miss hl hr =>
    rw [hl] at hstate
    exact h.goTo hstate.1
  | @write b marking isLast hl hr =>
    rw [hl] at hstate
    cases isLast <;> exact h.goTo hstate
  | @mark b marking isLast hl result hr =>
    have hposition : isLast = false →
        l.run.position = (lastPosition w.fetched).or (w.base s.events) := by
      rintro rfl
      exact h.position_eq (by rw [hl]; rfl)
    have hmarked : l.Ascends s.events (w.mark result) := h.congr rfl rfl
    cases result with
    | ok _ =>
      have hnoted : { l with run := l.run.noted }.Ascends s.events (w.mark (.ok ())) :=
        hmarked.withRun rfl
      exact hnoted.goOn hposition
    | error e => exact hmarked.goOn hposition
  | idle => exact h

end PipelineLoop

/-! ### The number of the latest row -/

namespace Watch

variable {name : String} {s : Store} {w : Watch} {m n : Nat}

/-- **An event of a greater number comes after the one that the latest row names.** -/
theorem Names.position_lt (h : w.Names name s m) (hs : s.events.Coherent)
    (hw : s.events.Ascends (w.base s.events) w.fetched) {e : Event}
    (he : w.fetched[n - 1]? = some e) (hlt : m < n) {row : Checkpoint} {p : Nat}
    (hrow : s.latestCheckpoint name = some row) (hp : s.events.positionOf row.event = some p) :
    p < e.position := by
  cases m with
  | zero =>
    -- the row is an earlier run's, and was taken up by this one
    have hresumed : w.resumed = some row := h.symm.trans hrow
    have hbase : w.base s.events = some p := by rw [base, hresumed, Option.bind_some, hp]
    have hbeyond := hw.beyond e (List.mem_of_getElem? he)
    rw [hbase] at hbeyond
    exact of_decide_eq_true hbeyond
  | succ m =>
    -- the row names an event of this run, which was fetched before
    obtain ⟨x, row', hx, hrow', hid⟩ := h
    obtain rfl : row = row' := Option.some.inj (hrow.symm.trans hrow')
    have hstored := hw.stored x (List.mem_of_getElem? hx)
    have hposition := hs.positionOf_eq_some_iff.mpr ⟨x, hstored, rfl, rfl⟩
    rw [← hid, hp] at hposition
    obtain ⟨hm, rfl⟩ := List.getElem?_eq_some_iff.mp hx
    obtain ⟨hn, rfl⟩ := List.getElem?_eq_some_iff.mp he
    rw [Option.some.inj hposition]
    exact List.pairwise_iff_getElem.mp hw.pairwise m (n - 1) hm hn (by omega)

/-- **The latest row has one number.** -/
theorem Names.unique (hm : w.Names name s m) (hn : w.Names name s n) (hs : s.events.Coherent)
    (hw : s.events.Ascends (w.base s.events) w.fetched) : m = n := by
  -- a row would name an event that comes after the event that it names
  have hnot : ∀ {m n}, w.Names name s m → w.Names name s n → ¬m < n := by
    intro m n hm hn hlt
    obtain ⟨n, rfl⟩ := Nat.exists_eq_succ_of_ne_zero (Nat.ne_zero_of_lt hlt)
    obtain ⟨e, row, he, hrow, hid⟩ := id hn
    have hstored := hw.stored e (List.mem_of_getElem? he)
    have hposition := hs.positionOf_eq_some_iff.mpr ⟨e, hstored, rfl, rfl⟩
    rw [← hid] at hposition
    exact Nat.lt_irrefl _ (hm.position_lt hs hw he hlt hrow hposition)
  exact Nat.le_antisymm (Nat.not_lt.mp (hnot hn hm)) (Nat.not_lt.mp (hnot hm hn))

end Watch

/-! ### Rows that go up -/

namespace Store

/-- **The rows of a pipeline go up the log**, in the order in which they were inserted. -/
structure Forward (name : String) (s : Store) : Prop where
  /-- Their orders ascend. -/
  orders : (s.rowsOf name).Pairwise fun a b => a.order < b.order
  /-- The events that they name are in the log, at ascending positions. -/
  places : ∃ places : List Nat,
    (s.rowsOf name).map (fun row => s.events.positionOf row.event) = places.map some ∧
      places.Pairwise (· < ·)

variable {name : String} {s s' : Store}

theorem forward_empty (name : String) : empty.Forward name :=
  ⟨List.Pairwise.nil, [], rfl, List.Pairwise.nil⟩

theorem Forward.located (h : s.Forward name) {row : Checkpoint} (hrow : row ∈ s.rowsOf name) :
    ∃ p, s.events.positionOf row.event = some p := by
  obtain ⟨places, heq, -⟩ := h.places
  have hmem : s.events.positionOf row.event ∈ places.map some :=
    heq ▸ List.mem_map_of_mem hrow
  obtain ⟨p, -, hp⟩ := List.mem_map.mp hmem
  exact ⟨p, hp.symm⟩

/-- Others may append, and store rows of other pipelines. -/
theorem Forward.mono (h : s.Forward name) (hrows : s'.rowsOf name = s.rowsOf name)
    (hs : s.events.Coherent) (hs' : s'.events.Coherent)
    (hkeeps : ∀ e ∈ s.events.toList, e ∈ s'.events.toList) : s'.Forward name := by
  obtain ⟨places, heq, hpairwise⟩ := h.places
  refine ⟨hrows ▸ h.orders, places, ?_, hpairwise⟩
  rw [hrows, ← heq]
  refine List.map_congr_left fun row hrow => ?_
  obtain ⟨p, hp⟩ := h.located hrow
  rw [hp]
  exact hs.positionOf_mono hs' hkeeps hp

/-- The latest row is the one that was inserted last. -/
theorem Forward.latestCheckpoint_eq (h : s.Forward name) :
    s.latestCheckpoint name = (s.rowsOf name).getLast? := by
  rw [Store.latestCheckpoint_eq]
  rcases List.eq_nil_or_concat (s.rowsOf name) with heq | ⟨init, row, heq⟩
  · rw [heq]
    rfl
  · have horders := h.orders
    rw [heq, List.concat_eq_append] at horders ⊢
    rw [List.getLast?_concat]
    refine lastGreatest_append_singleton fun other hother => ?_
    exact ((List.pairwise_append.mp horders).2.2 other hother row (List.mem_singleton.mpr rfl)).le

/-- **A row that names an event beyond that of the latest row** keeps the rows going up. -/
theorem Forward.add (h : s.Forward name) {row : Checkpoint} (hadds : s.Adds name row s')
    (hevents : s'.events = s.events) {p : Nat} (hp : s.events.positionOf row.event = some p)
    (hlt : ∀ last q, s.latestCheckpoint name = some last →
      s.events.positionOf last.event = some q → q < p) : s'.Forward name := by
  obtain ⟨places, heq, hpairwise⟩ := h.places
  rw [h.latestCheckpoint_eq] at hlt
  have hbeyond : ∀ q ∈ places, q < p := by
    rcases List.eq_nil_or_concat places with rfl | ⟨init, r, rfl⟩
    · exact nofun
    · -- the last place is that of the latest row
      rw [List.concat_eq_append] at heq hpairwise ⊢
      have hlast := congrArg List.getLast? heq
      rw [List.getLast?_map, List.map_append, List.map_singleton, List.getLast?_concat] at hlast
      obtain ⟨last, hlast, hr⟩ := Option.map_eq_some_iff.mp hlast
      have hrp := hlt last r hlast hr
      rw [List.forall_mem_append, List.forall_mem_singleton]
      refine ⟨fun q hq => ?_, hrp⟩
      exact ((List.pairwise_append.mp hpairwise).2.2 q hq r (List.mem_singleton.mpr rfl)).trans hrp
  refine ⟨?_, places ++ [p], ?_, ?_⟩
  · rw [hadds.rowsOf_eq]
    refine List.pairwise_append.mpr ⟨h.orders, List.pairwise_singleton _ _, ?_⟩
    intro other hother x hx
    rw [List.mem_singleton.mp hx]
    exact hadds.order_lt other hother
  · rw [hadds.rowsOf_eq, hevents, List.map_append, heq, List.map_append, List.map_singleton, hp,
      List.map_singleton]
  · refine List.pairwise_append.mpr ⟨hpairwise, List.pairwise_singleton _ _, ?_⟩
    intro q hq x hx
    rw [List.mem_singleton.mp hx]
    exact hbeyond q hq

end Store

end EventJournal
