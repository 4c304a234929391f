import EventJournal.Log.Read
import EventJournal.Proofs.Appending.Clients
import EventJournal.Proofs.EventOrder

/-!
# What a reader of the log can rely on

A reader goes through the log page by page and asks each time for what comes after the last
position that it has (`EventJournal.LogReader`). It never looks back; so it must not happen that
an event is stored at a position that the reader has passed, however the writers are delayed
between their reading of the counter and their commit.

It cannot happen, because a batch is stored at positions beyond the counter and in the same
atomic call that moves the counter past them. Whatever is stored comes to the end of the log
(`EventJournal.Store.Grows`), and a number that is handed out without an event moves the end on
and leaves a hole that nobody can fill. What a reader has read is therefore an initial segment of
the log at all times (`EventJournal.LogReader.Sound`), and this is all there is to
`EventJournal.Interleaving.pages_complete`.

| users of the log | next call | leaves |
|---|---|---|
| commit a batch, append | at the counter (`EventJournal.Call.NoGap`) | no gap |
| take a number | moves the counter (`EventJournal.Call.MovesOn`) | a hole |
| read | none that writes | all as it was |
-/

namespace EventJournal

/-! ### Logs that grow at the end -/

/-- Events at consecutive positions, wherever the first of them is. -/
def InRow : List Event → Prop
  | [] => True
  | e :: rest => Follow e.position rest

theorem Follow.inRow {p : Nat} {events : List Event} (h : Follow p events) : InRow events := by
  cases events with
  | nil => trivial
  | cons e rest =>
    obtain ⟨hpos, hrest⟩ := h
    rw [InRow, hpos]
    exact hrest

theorem Draft.inRow_placeAll (stream : Uuid) (index position : Nat) (drafts : List Draft) :
    InRow (placeAll stream index position drafts) := by
  cases drafts with
  | nil => trivial
  | cons d rest => exact Draft.follow_placeAll stream (index + 1) position rest

theorem Batch.inRow_placed (b : Batch) (first : Nat) : InRow (b.placed first) :=
  Draft.inRow_placeAll b.stream b.expected first b.drafts

namespace Store

/-- **A store in which no event lies beyond the counter.** Positions below it may be missing. -/
structure Counted (s : Store) : Prop where
  /-- The indexes describe the events. -/
  coherent : s.events.Coherent
  /-- Positions are counted from one. -/
  position_pos : ∀ e ∈ s.events.toList, 0 < e.position
  /-- The counter has passed them. -/
  position_le : ∀ e ∈ s.events.toList, e.position ≤ s.counter Sequence.events

theorem counted_empty : empty.Counted := ⟨EventTable.coherent_empty, nofun, nofun⟩

/-- **A log to whose end events were added**, if any were. -/
structure Grows (s s' : Store) : Prop where
  /-- The counter has passed the events. -/
  counted : s'.Counted
  /-- The log of before is an initial segment of the log. -/
  log : s.events.toList <+: s'.events.toList

variable {s s' : Store}

theorem Counted.grows_refl (h : s.Counted) : s.Grows s := ⟨h, List.prefix_refl _⟩

/-- The log is the same, and the counter stands where it stood or beyond. -/
theorem Counted.grows_of_counter (h : s.Counted) (hevents : s'.events.Agrees s.events)
    (hle : s.counter Sequence.events ≤ s'.counter Sequence.events) : s.Grows s' := by
  have hlog := hevents.toList
  refine ⟨⟨hevents.coherent h.coherent, ?_, ?_⟩, List.prefix_iff_eq_append.mpr ?_⟩
  · rw [hlog]
    exact h.position_pos
  · rw [hlog]
    exact fun e he => (h.position_le e he).trans hle
  · simp [hlog]

/-! ### Committing events in a row -/

/-- **What comes of putting events in a row to a store**: nothing that a read could find, or they
follow the counter, which then stands at the last of them. -/
theorem commitEvents_row (sequence : String) {e : Event} {rest : List Event}
    (hrow : Follow e.position rest) :
    ((s.commitEvents sequence (e :: rest)).1 ≠ .ok true ∧
        (s.commitEvents sequence (e :: rest)).2.Agrees s) ∨
      Follow (s.counter sequence) (e :: rest) ∧ (s.events.insertAll (e :: rest)).1 = none ∧
        s.commitEvents sequence (e :: rest) =
          (.ok true,
            { s with
              events := (s.events.insertAll (e :: rest)).2
              counters := s.counters.insert sequence
                (s.counter sequence + (e :: rest).length) }) := by
  rcases heq : s.commitEvents sequence (e :: rest) with ⟨r, s'⟩
  have hcommits := commits_of_eq heq
  by_cases hr : r = .ok true
  · right
    cases hcommits with
    | stored hpos hcounter hlast hinsert =>
      have hfollow : Follow (s.counter sequence) (e :: rest) := by
        have hfirst : e.position = s.counter sequence + 1 := by omega
        exact ⟨hfirst, hfirst ▸ hrow⟩
      rw [hinsert, hfollow.position_getLast? hlast]
      exact ⟨hfollow, rfl, rfl⟩
    | unplaced | elsewhere | undone => cases hr
  · exact Or.inl ⟨hr, hcommits.agrees hr⟩

/-- The counter of a store whose counter was set. -/
theorem counter_insert (s : Store) (name : String) (value : Nat) (other : String) :
    ({ s with counters := s.counters.insert name value } : Store).counter other =
      if other = name then value else s.counter other := by
  simp only [counter, SortedMap.get?_insert]
  split <;> rfl

/-- **A commit adds to the end.** -/
theorem Counted.commitEvents (h : s.Counted) {events : List Event} (hrow : InRow events) :
    s.Grows (s.commitEvents Sequence.events events).2 := by
  cases events with
  | nil => exact h.grows_refl
  | cons e rest =>
    rcases commitEvents_row (s := s) Sequence.events hrow with
      ⟨-, hagrees⟩ | ⟨hfollow, hnone, hcommit⟩
    · exact h.grows_of_counter hagrees.events (hagrees.counter_eq _).ge
    · have heq := congrArg Prod.snd hcommit
      have hlog := h.coherent.toList_insertAll h.position_le hfollow hnone
      have hcounter : (s.commitEvents Sequence.events (e :: rest)).2.counter Sequence.events =
          s.counter Sequence.events + (e :: rest).length := by
        rw [heq]
        simp [counter]
      have hevents := congrArg Store.events heq
      refine ⟨⟨?_, ?_, ?_⟩, ?_⟩
      · rw [hevents]
        exact (EventTable.insertAll_of_none h.coherent hnone).1
      · rw [hevents, hlog]
        intro x hx
        rcases List.mem_append.mp hx with hx | hx
        · exact h.position_pos x hx
        · exact Nat.zero_lt_of_lt (hfollow.lt_position hx)
      · rw [hcounter, hevents, hlog]
        intro x hx
        rcases List.mem_append.mp hx with hx | hx
        · exact (h.position_le x hx).trans (Nat.le_add_right _ _)
        · exact ((hfollow.position_iff _).mp ⟨x, hx, rfl⟩).2
      · rw [hevents, hlog]
        exact List.prefix_append _ _

/-- **A commit leaves no gap.** -/
theorem Ordered.commitEvents (h : s.Ordered) {events : List Event} (hrow : InRow events) :
    (s.commitEvents Sequence.events events).2.Ordered := by
  cases events with
  | nil => exact h
  | cons e rest =>
    rcases commitEvents_row (s := s) Sequence.events hrow with
      ⟨-, hagrees⟩ | ⟨hfollow, hnone, heq⟩
    · exact hagrees.ordered h
    · obtain ⟨hcoh, hmem⟩ := EventTable.insertAll_of_none h.coherent hnone
      rw [heq]
      refine ⟨hcoh, fun p => ?_⟩
      have hold := h.position_iff p
      have hnew := hfollow.position_iff p
      simp only [hmem, or_and_right, exists_or, hold, hnew]
      simp only [counter, SortedMap.get?_insert_self, Option.getD_some]
      omega

end Store

/-! ### Calls that add to the end -/

namespace Call

/-- **A call that leaves no gap**: it commits events in a row at the counter of the events, or has
nothing to do with either. -/
def NoGap (call : Call) : Prop :=
  call.LeavesEvents ∨ ∃ events, InRow events ∧ call = .commitEvents Sequence.events events

/-- **A call that adds to the end of the log**, or moves the end on. -/
def MovesOn (call : Call) : Prop :=
  call.NoGap ∨ (∃ value, call = .insertCounter Sequence.events value) ∨
    ∃ expected value, expected ≤ value ∧
      call = .advanceCounter Sequence.events expected value

variable {call : Call} {s : Store}

theorem NoGap.ordered (h : call.NoGap) (hs : s.Ordered) : (call.perform s).2.Ordered := by
  rcases h with hleaves | ⟨events, hrow, rfl⟩
  · exact perform_ordered hleaves hs
  · exact hs.commitEvents hrow

theorem NoGap.grows (h : call.NoGap) (hs : s.Counted) : s.Grows (call.perform s).2 := by
  rcases h with hleaves | ⟨events, hrow, rfl⟩
  · have hevents := (perform_events hleaves s).1
    exact hs.grows_of_counter (hevents ▸ .refl _) (perform_counter hleaves s).ge
  · exact hs.commitEvents hrow

/-- **A call that moves on makes the log grow**, if it changes it. -/
theorem MovesOn.grows (h : call.MovesOn) (hs : s.Counted) : s.Grows (call.perform s).2 := by
  rcases h with hgap | ⟨value, rfl⟩ | ⟨expected, value, hle, rfl⟩
  · exact hgap.grows hs
  · simp only [perform, Store.insertCounter]
    split
    · exact hs.grows_refl
    · -- a counter that did not exist stood at zero
      next hnew =>
      have hnone := SortedMap.contains_eq_false_iff.mp (Bool.eq_false_iff.mpr hnew)
      refine hs.grows_of_counter (.refl _) ?_
      rw [Store.counter, hnone]
      exact Nat.zero_le _
  · simp only [perform, Store.advanceCounter]
    split
    · next hget =>
      refine hs.grows_of_counter (.refl _) ?_
      have hset := Store.counter_insert s Sequence.events value Sequence.events
      rw [if_pos rfl] at hset
      rw [Store.counter, hget]
      exact hle.trans hset.ge
    · exact hs.grows_refl

theorem Reads.leavesEvents (h : call.Reads) : call.LeavesEvents := by
  cases call with
  | eventsOfStream | eventsAfter | positionOf | findHead | insertSnapshot | findSnapshot => trivial
  | _ => exact absurd h id

end Call

/-! ### Readers -/

/-- **A reader of the log**, page by page. -/
structure LogReader where
  /-- How many events it asks for, by the number of the page. -/
  limits : Nat → Nat
  /-- The pages that it has read. -/
  pages : List (List Event)
  /-- The page that it is reading. -/
  reading : Reading

namespace LogReader

/-- A reader that begins with the first event. -/
def start (limits : Nat → Nat) : LogReader := ⟨limits, [], .after none (limits 0)⟩

/-- The last position that the reader has received. -/
def last (r : LogReader) : Option Nat := lastPosition r.pages.flatten

/-- The reader goes on after the last position that it has received. -/
def goOn (r : LogReader) : LogReader :=
  { r with reading := .after r.last (r.limits r.pages.length) }

/-- The reader has received a page, or has to ask for it again. -/
def receive (r : LogReader) : Except LogError (List Event) → LogReader
  | .ok page => goOn { r with pages := r.pages ++ [page] }
  | .error _ => r.goOn

/-- What a reader does next. -/
def next (r : LogReader) : Progress LogReader Unit :=
  r.reading.next.within (fun reading => { r with reading }) fun result => .moves (r.receive result)

/-- **What a reader has received is an initial segment of the log**, the page that is on its way
included. -/
def Sound (log : List Event) (r : LogReader) : Prop :=
  match r.reading with
  | .after position _ => position = r.last ∧ r.pages.flatten <+: log
  | .done (.ok page) => r.pages.flatten ++ page <+: log
  | .done (.error _) => r.pages.flatten <+: log
  | _ => False

variable {r : LogReader} {log log' : List Event}

theorem sound_start (limits : Nat → Nat) (log : List Event) : (start limits).Sound log :=
  ⟨rfl, List.nil_prefix⟩

theorem Sound.mono (h : r.Sound log) (hlog : log <+: log') : r.Sound log' := by
  unfold Sound at h ⊢
  split at h
  · exact ⟨h.1, h.2.trans hlog⟩
  · exact h.trans hlog
  · exact h.trans hlog
  · exact absurd h id

theorem Sound.pages_flatten (h : r.Sound log) : r.pages.flatten <+: log := by
  unfold Sound at h
  split at h
  · exact h.2
  · exact (List.prefix_append _ _).trans h
  · exact h
  · exact absurd h id

theorem sound_receive {page : List Event} (h : r.pages.flatten ++ page <+: log) :
    (r.receive (.ok page)).Sound log := by
  refine ⟨rfl, ?_⟩
  simpa [receive, goOn] using h

/-- **A page goes on where the last one has ended.** -/
theorem Sound.step {s : Store} (h : r.Sound s.events.toList) (hs : s.events.Coherent) :
    (r.next.step none r s).1.Sound s.events.toList := by
  obtain ⟨limits, pages, reading⟩ := r
  cases reading with
  | after position limit =>
    obtain ⟨hposition, hpages⟩ := h
    obtain rfl : position = lastPosition pages.flatten := hposition
    by_cases hlimit : limit = 0
    · have hpage : pages.flatten ++ [] <+: s.events.toList := by simpa using hpages
      simpa [next, Reading.next, hlimit, Progress.within, Progress.step] using
        sound_receive (r := ⟨limits, pages, _⟩) hpage
    · simp only [next, Reading.next, hlimit, if_false, Progress.within, Progress.step,
        Call.perform]
      -- the page is the beginning of what the reader has not received yet
      obtain ⟨rest, hrest⟩ := hpages
      have hsorted := hs.pairwise_toList
      have hpage := hs.after_eq (lastPosition pages.flatten) limit
      rw [← hrest] at hsorted hpage
      rw [filter_lastPosition_lt hsorted] at hpage
      change pages.flatten ++ s.events.after (lastPosition pages.flatten) limit <+: _
      rw [hpage, ← hrest]
      exact (List.prefix_append_right_inj _).mpr (List.take_prefix _ _)
  | done result =>
    cases result with
    | ok page => exact sound_receive (r := ⟨limits, pages, _⟩) h
    | error e => exact ⟨rfl, h⟩
  | _ => exact absurd h id

end LogReader

/-! ### Users -/

/-- Committing events in a row leaves no gap. -/
theorem Commit.next_noGap {build : Nat → List Event} (h : ∀ first, InRow (build first))
    (c : Commit) : (c.next Sequence.events build).Calls Call.NoGap := by
  cases c with
  | reading tried =>
    have hcall : (Call.findCounter Sequence.events).NoGap := Or.inl trivial
    exact Progress.calls_asks hcall _
  | storing tried first =>
    have hcall : (Call.commitEvents Sequence.events (build first)).NoGap :=
      Or.inr ⟨_, h first, rfl⟩
    exact Progress.calls_asks hcall _
  | retrying tried => exact nofun
  | done result => exact nofun

/-- Appending leaves no gap. -/
theorem Append.next_noGap (b : Batch) (a : Append) : (a.next b).Calls Call.NoGap := by
  cases a with
  | findingHead =>
    have hcall : (Call.findHead b.stream).NoGap := Or.inl trivial
    exact Progress.calls_asks hcall _
  | creatingHead =>
    have hcall : (Call.insertHead ⟨b.stream, b.version, b.kind⟩).NoGap := Or.inl trivial
    exact Progress.calls_asks hcall _
  | movingHead =>
    have hcall : (Call.advanceHead b.stream b.expected b.version).NoGap := Or.inl trivial
    exact Progress.calls_asks hcall _
  | conflicting => exact nofun
  | committing commit =>
    refine (commit.next_noGap b.inRow_placed).within fun result _ => ?_
    cases result <;> exact nofun
  | done result => exact nofun

/-- Taking a number moves the end of the log on. -/
theorem Allocation.next_movesOn (a : Allocation) :
    (a.next Sequence.events).Calls Call.MovesOn := by
  cases a with
  | reading =>
    have hcall : (Call.findCounter Sequence.events).MovesOn := Or.inl (Or.inl trivial)
    exact Progress.calls_asks hcall _
  | creating =>
    have hcall : (Call.insertCounter Sequence.events 0).MovesOn := Or.inr (Or.inl ⟨0, rfl⟩)
    exact Progress.calls_asks hcall _
  | claiming n =>
    have hcall : (Call.advanceCounter Sequence.events n (n + 1)).MovesOn :=
      Or.inr (Or.inr ⟨n, n + 1, n.le_succ, rfl⟩)
    exact Progress.calls_asks hcall _
  | retrying => exact nofun
  | done result => exact nofun

/-- Reading leaves no gap. -/
theorem LogReader.next_noGap (r : LogReader) : r.next.Calls Call.NoGap := by
  have hreads := r.reading.next_reads
  refine Progress.Calls.within (fun call resume hp => ?_) fun _ _ => Progress.calls_moves _
  exact Or.inl (hreads call resume hp).leavesEvents

/-- A numbering of a batch by consecutive positions. -/
structure Numbering where
  /-- The events, when the first free position is known. -/
  build : Nat → List Event
  /-- They are in a row. -/
  inRow : ∀ first, InRow (build first)

/-- **What the log is used for.** -/
inductive LogUse
  /-- A number is taken. -/
  | allocation
  /-- A batch is committed. -/
  | commit (numbering : Numbering)
  /-- A batch is appended to a stream. -/
  | append (batch : Batch)
  /-- The log is read, in pages of these sizes. -/
  | reading (limits : Nat → Nat)

/-- **A user of the log**: what it uses the log for, and how far it has come. -/
inductive LogUser
  /-- It takes a number. -/
  | allocates (allocation : Allocation)
  /-- It commits a batch. -/
  | commits (numbering : Numbering) (commit : Commit)
  /-- It appends a batch to a stream. -/
  | appends (writer : Writer)
  /-- It reads the log. -/
  | reads (reader : LogReader)

namespace LogUser

/-- A user that has not begun. -/
def start : LogUse → LogUser
  | .allocation => allocates .reading
  | .commit numbering => commits numbering .start
  | .append batch => appends (.start batch)
  | .reading limits => reads (.start limits)

/-- What a user does next. -/
def next : LogUser → Progress LogUser Unit
  | allocates allocation =>
    (allocation.next Sequence.events).within allocates fun _ => .finished ()
  | commits numbering commit =>
    (commit.next Sequence.events numbering.build).within (commits numbering) fun _ => .finished ()
  | appends writer => writer.next.within appends fun _ => .finished ()
  | reads reader => reader.next.within reads fun _ => .finished ()

/-- A user that takes a number. -/
def Allocates : LogUser → Prop
  | allocates _ => True
  | _ => False

/-- **Whoever does not take a number leaves no gap.** -/
theorem next_noGap {u : LogUser} (hu : ¬u.Allocates) : u.next.Calls Call.NoGap := by
  cases u with
  | allocates allocation => exact absurd trivial hu
  | commits numbering commit =>
    exact (commit.next_noGap numbering.inRow).within fun _ _ => Progress.calls_finished _
  | appends writer =>
    have happend := writer.append.next_noGap writer.batch
    have hwriter : writer.next.Calls Call.NoGap :=
      happend.within fun _ _ => Progress.calls_finished _
    exact hwriter.within fun _ _ => Progress.calls_finished _
  | reads reader => exact reader.next_noGap.within fun _ _ => Progress.calls_finished _

theorem next_movesOn (u : LogUser) : u.next.Calls Call.MovesOn := by
  by_cases hu : u.Allocates
  · cases u with
    | allocates allocation =>
      exact allocation.next_movesOn.within fun _ _ => Progress.calls_finished _
    | _ => exact absurd hu id
  · exact fun call resume hp => Or.inl (next_noGap hu call resume hp)

/-- The reader that a user is. -/
def reader? : LogUser → Option LogReader
  | reads reader => some reader
  | _ => none

theorem reader?_eq_some_iff {u : LogUser} {r : LogReader} : u.reader? = some r ↔ u = reads r := by
  cases u with
  | reads reader => simp [reader?]
  | _ => simp [reader?]

/-- **A step of a user** is a step of what it is at. -/
theorem step_eq (u : LogUser) (s : Store) :
    (u.next.step none u s).1 = match u with
      | allocates a => allocates ((a.next Sequence.events).step none a s).1
      | commits n c => commits n ((c.next Sequence.events n.build).step none c s).1
      | appends w => appends (w.next.step none w s).1
      | reads r => reads (r.next.step none r s).1 := by
  cases u <;> simp only [next, Progress.step_within_finished]

end LogUser

/-! ### What is read -/

namespace Interleaving

/-- Users that are about to begin with a new log. -/
def ofUses (uses : List LogUse) : Interleaving LogUser := ⟨.empty, uses.map LogUser.start⟩

/-- **What users have made of a new log.** -/
structure Visible (x : Interleaving LogUser) : Prop where
  /-- The counter has passed the events. -/
  counted : x.store.Counted
  /-- What the readers have received is what the log began with. -/
  sound : ∀ r, .reads r ∈ x.states → r.Sound x.store.events.toList

theorem visible_ofUses (uses : List LogUse) : (ofUses uses).Visible := by
  refine ⟨Store.counted_empty, fun r hr => ?_⟩
  obtain ⟨use, -, huse⟩ := List.mem_map.mp hr
  cases use with
  | reading limits =>
    cases huse
    exact LogReader.sound_start limits _
  | _ => cases huse

variable {x : Interleaving LogUser}

/-- **A step makes the log grow**, and a reader that takes it goes on where it was. -/
theorem Visible.step (h : x.Visible) {i : Nat} {u : LogUser} (hi : x.states[i]? = some u) :
    x.store.Grows (u.next.step none u x.store).2 ∧
      Visible ⟨(u.next.step none u x.store).2,
        x.states.set i (u.next.step none u x.store).1⟩ := by
  have hgrows : x.store.Grows (u.next.step none u x.store).2 := by
    rcases u.next_movesOn.step_store none u x.store with heq | ⟨call, hcall, heq⟩
    · rw [heq]
      exact h.counted.grows_refl
    · rw [heq]
      exact hcall.grows h.counted
  refine ⟨hgrows, hgrows.counted, fun r hr => LogReader.Sound.mono ?_ hgrows.log⟩
  rcases List.mem_or_eq_of_mem_set hr with hr | hr
  · exact h.sound r hr
  · rw [u.step_eq] at hr
    cases u with
    | reads r₀ =>
      cases hr
      exact (h.sound r₀ (List.mem_of_getElem? hi)).step h.counted.coherent
    | _ => cases hr

/-- **Whatever the users do, the log grows at its end.** -/
theorem Visible.run (h : x.Visible) (schedule : List Nat) :
    (x.run LogUser.next schedule).Visible ∧
      x.store.Grows (x.run LogUser.next schedule).store := by
  refine run_induction (P := fun y => y.Visible ∧ x.store.Grows y.store) schedule
    ⟨h, h.counted.grows_refl⟩ fun y i u ⟨hy, hgrows⟩ hi => ?_
  obtain ⟨hstep, hvisible⟩ := hy.step hi
  exact ⟨hvisible, hstep.counted, hgrows.log.trans hstep.log⟩

/-- **Without numbers taken there is no gap.** -/
theorem ordered_run_ofUses {uses : List LogUse} (huses : .allocation ∉ uses)
    (schedule : List Nat) : ((ofUses uses).run LogUser.next schedule).store.Ordered := by
  have hstart : ∀ u ∈ (ofUses uses).states, ¬u.Allocates := by
    intro u hu
    obtain ⟨use, huse, rfl⟩ := List.mem_map.mp hu
    cases use with
    | allocation => exact absurd huse huses
    | _ => exact id
  refine (run_induction (P := fun y => y.store.Ordered ∧ ∀ u ∈ y.states, ¬u.Allocates) schedule
    ⟨Store.ordered_empty, hstart⟩ fun y i u ⟨hy, hall⟩ hi => ?_).1
  have hu := hall u (List.mem_of_getElem? hi)
  refine ⟨?_, forall_mem_set hall ?_⟩
  · rcases (LogUser.next_noGap hu).step_store none u y.store with heq | ⟨call, hcall, heq⟩
    · rw [heq]
      exact hy
    · rw [heq]
      exact hcall.ordered hy
  · rw [u.step_eq]
    cases u with
    | allocates a => exact absurd trivial hu
    | _ => exact id

/-- **A reader misses nothing.** Users of a new log take numbers, commit batches, append and read
in any order of their steps. At any moment, what a reader has received is in order, and is
exactly what is stored up to the last position that it has, then and ever `later`. If nobody takes
numbers, the positions that are stored are those from one to the counter. -/
theorem pages_complete (uses : List LogUse) (schedule later : List Nat)
    {x y : Interleaving LogUser} (hx : (ofUses uses).run LogUser.next schedule = x)
    (hy : x.run LogUser.next later = y) :
    (∀ r, .reads r ∈ x.states →
      (r.pages.flatten.Pairwise fun a b => a.position < b.position) ∧
      x.store.events.toList.filter (fun e => e.position ≤ r.last.getD 0) = r.pages.flatten ∧
      y.store.events.toList.filter (fun e => e.position ≤ r.last.getD 0) = r.pages.flatten) ∧
    (.allocation ∉ uses → ∀ p,
      (∃ e ∈ x.store.events.toList, e.position = p) ↔
        0 < p ∧ p ≤ x.store.counter Sequence.events) := by
  subst hx hy
  obtain ⟨hvisible, -⟩ := (visible_ofUses uses).run schedule
  obtain ⟨hlater, hgrows⟩ := hvisible.run later
  refine ⟨fun r hr => ?_, fun huses => (ordered_run_ofUses huses schedule).position_iff⟩
  have hpages := (hvisible.sound r hr).pages_flatten
  have hnow := hvisible.counted
  have hthen := hlater.counted
  refine ⟨hnow.coherent.pairwise_toList.sublist hpages.sublist, ?_, ?_⟩
  · exact filter_le_of_prefix hnow.coherent.pairwise_toList hnow.position_pos hpages
  · exact filter_le_of_prefix hthen.coherent.pairwise_toList hthen.position_pos
      (hpages.trans hgrows.log)

/-- Users of which one takes a number, two store events, and the last one reads: the first page is
to have one event, and every page one more than the page before. -/
def someUses : List LogUse :=
  [.allocation, .commit ⟨(Batch.ofNumbers 1 0 [10, 11]).placed, Batch.inRow_placed _⟩,
    .append (.ofNumbers 2 0 [20]), .reading (· + 1)]

/-- An order of their steps in which the number is taken between the reading of the counter and the
commit, so that the commit has to be made again. -/
def someSchedule : List Nat :=
  [1, 0, 0, 0, 0, 1, 1, 1, 1, 3, 3, 2, 2, 2, 3, 2, 3]

theorem pages_complete_hole :
    let x := (ofUses someUses).run LogUser.next someSchedule
    let z := (ofUses someUses.tail).run LogUser.next [0, 0, 1, 1, 1, 1]
    (∃ r, .reads r ∈ x.states ∧ r.pages.map (·.map (·.position)) = [[2], [3]] ∧
      ((x.run LogUser.next [3, 3]).store.events.toList.map (·.position)) = [2, 3, 4] ∧
      (x.run LogUser.next [3, 3]).store.events.toList.filter
        (fun e => e.position ≤ r.last.getD 0) = r.pages.flatten) ∧
    ∀ p, (∃ e ∈ z.store.events.toList, e.position = p) ↔
      0 < p ∧ p ≤ z.store.counter Sequence.events := by
  intro x z
  have hread : (x.states.findSome? LogUser.reader?).map (·.pages.map (·.map (·.position))) =
      some [[2], [3]] := by decide +kernel
  obtain ⟨r, hr, hpages⟩ := Option.map_eq_some_iff.mp hread
  obtain ⟨u, hu, hur⟩ := List.exists_of_findSome?_eq_some hr
  obtain rfl := LogUser.reader?_eq_some_iff.mp hur
  have hall := (pages_complete someUses someSchedule [3, 3] (x := x) rfl rfl).1 r hu
  have hnone : .allocation ∉ someUses.tail := by simp [someUses]
  exact ⟨⟨r, hu, hpages, by decide +kernel, hall.2.2⟩,
    (pages_complete someUses.tail [0, 0, 1, 1, 1, 1] [] (x := z) rfl rfl).2 hnone⟩

end Interleaving

end EventJournal
