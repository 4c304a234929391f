import EventJournal.Proofs.Visibility

/-!
# What a counter hands out

Numbers are taken from the counters of a store one by one, and in blocks by the batches that are
committed at them. Whoever wants some reads the counter first, and may be overtaken by any number
of others before it writes; the counter may even be made in between. Nevertheless the numbers that
a counter has handed out are at all times those from where it stood at first to where it stands,
each of them once (`EventJournal.Interleaving.numbers_given_once_in_order`).

All of this is said of one step: whatever a user of a counter does, it is given the next numbers of
the counter, or none, and nothing else of the counters changes (`EventJournal.Store.HandsOut`).

| a step of | gives | since |
|---|---|---|
| a read, a retry | no numbers | the counter stays |
| the making of a counter | no numbers | it stood at zero before |
| the moving of a counter | one number | it stood where it was read |
| a commit | a number to each event | the batch follows the counter |

Users of different counters have nothing in common but the table of events, which matters to those
who commit events only. So the users of one counter get what they would get without the others, if
no others commit events.
-/

namespace EventJournal

/-! ### Numbers of events -/

/-- The positions of events in a row are consecutive. -/
theorem Follow.map_position {p : Nat} {events : List Event} (h : Follow p events) :
    events.map (·.position) = List.range' (p + 1) events.length := by
  induction events generalizing p with
  | nil => rfl
  | cons e rest ih =>
    rw [List.map_cons, ih h.2, h.1, List.length_cons, List.range'_succ]

namespace Store

/-- **A store that has handed out so many numbers of a counter**, and has stored the events of a
batch, if any. -/
structure HandsOut (name : String) (count : Nat) (batch : List Event) (s s' : Store) : Prop where
  /-- The indexes describe the events. -/
  coherent : s'.events.Coherent
  /-- The events. -/
  mem_iff : ∀ e, e ∈ s'.events.toList ↔ e ∈ s.events.toList ∨ e ∈ batch
  /-- The counter. -/
  counter_eq : s'.counter name = s.counter name + count
  /-- The other counters. -/
  counters_of_ne : ∀ other, other ≠ name → s'.counters.get? other = s.counters.get? other

variable {s s' : Store} {name : String}

theorem handsOut_of_agrees (hs : s.events.Coherent) (h : s'.Agrees s) :
    s.HandsOut name 0 [] s' where
  coherent := h.events.coherent hs
  mem_iff e := by simp [h.events.toList]
  counter_eq := h.counter_eq name
  counters_of_ne other _ := by rw [h.counters]

theorem handsOut_refl (hs : s.events.Coherent) (name : String) : s.HandsOut name 0 [] s :=
  handsOut_of_agrees hs (.refl s)

/-- Only the counter is set. -/
theorem handsOut_insert (hs : s.events.Coherent) (name : String) (count : Nat) :
    s.HandsOut name count []
      { s with counters := s.counters.insert name (s.counter name + count) } where
  coherent := hs
  mem_iff e := by simp
  counter_eq := by simp [counter]
  counters_of_ne other hne := SortedMap.get?_insert_of_ne _ hne _

/-- **What comes of a commit of events in a row**: they are stored at the next numbers of the
counter, or nothing is. -/
theorem handsOut_commitEvents (hs : s.events.Coherent) (name : String) {events : List Event}
    (hrow : InRow events) :
    ((s.commitEvents name events).1 ≠ .ok true ∧
        s.HandsOut name 0 [] (s.commitEvents name events).2) ∨
      (s.commitEvents name events).1 = .ok true ∧
        events.map (·.position) = List.range' (s.counter name + 1) events.length ∧
        s.HandsOut name events.length events (s.commitEvents name events).2 := by
  cases events with
  | nil => exact Or.inr ⟨rfl, rfl, handsOut_refl hs name⟩
  | cons e rest =>
    rcases commitEvents_row (s := s) name hrow with
      ⟨hanswer, hagrees⟩ | ⟨hfollow, hnone, heq⟩
    · exact Or.inl ⟨hanswer, handsOut_of_agrees hs hagrees⟩
    · obtain ⟨hcoherent, hmem⟩ := EventTable.insertAll_of_none hs hnone
      refine Or.inr ⟨congrArg Prod.fst heq, hfollow.map_position, ?_⟩
      rw [heq]
      refine ⟨hcoherent, hmem, ?_, fun other hne => SortedMap.get?_insert_of_ne _ hne _⟩
      simp [counter]

end Store

/-! ### Calls on one counter -/

namespace Store

/-- **Two stores alike in a counter**, and in their events if that matters. -/
structure Alike (name : String) (log : Prop) (s t : Store) : Prop where
  /-- The counter. -/
  get?_eq : s.counters.get? name = t.counters.get? name
  /-- The events. -/
  events : log → s.events = t.events

variable {s t : Store} {name : String} {log : Prop}

/-- The counter is set in both. -/
theorem Alike.insert (h : s.Alike name log t) (value : Nat) :
    Alike name log { s with counters := s.counters.insert name value }
      { t with counters := t.counters.insert name value } where
  get?_eq := by rw [SortedMap.get?_insert_self, SortedMap.get?_insert_self]
  events := h.events

theorem Alike.insertCounter (h : s.Alike name log t) (value : Nat) :
    (s.insertCounter name value).1 = (t.insertCounter name value).1 ∧
      (s.insertCounter name value).2.Alike name log (t.insertCounter name value).2 := by
  rw [Store.insertCounter, Store.insertCounter, SortedMap.contains, SortedMap.contains, h.get?_eq]
  by_cases hmade : (t.counters.get? name).isSome
  · rw [if_pos hmade, if_pos hmade]
    exact ⟨rfl, h⟩
  · rw [if_neg hmade, if_neg hmade]
    exact ⟨rfl, h.insert value⟩

theorem Alike.advanceCounter (h : s.Alike name log t) (expected value : Nat) :
    (s.advanceCounter name expected value).1 = (t.advanceCounter name expected value).1 ∧
      (s.advanceCounter name expected value).2.Alike name log
        (t.advanceCounter name expected value).2 := by
  rw [Store.advanceCounter, Store.advanceCounter, h.get?_eq]
  by_cases hstands : t.counters.get? name = some expected
  · rw [if_pos hstands, if_pos hstands]
    exact ⟨rfl, h.insert value⟩
  · rw [if_neg hstands, if_neg hstands]
    exact ⟨rfl, h⟩

theorem Alike.commitEvents (h : s.Alike name log t) (hlog : log) (events : List Event) :
    (s.commitEvents name events).1 = (t.commitEvents name events).1 ∧
      (s.commitEvents name events).2.Alike name log (t.commitEvents name events).2 := by
  have hcounter : s.counter name = t.counter name := by rw [counter, h.get?_eq, counter]
  cases events with
  | nil => exact ⟨rfl, h⟩
  | cons first rest =>
    have hlast := List.getLast?_eq_some_getLast (List.cons_ne_nil first rest)
    simp only [Store.commitEvents, List.head?_cons, hlast, hcounter, h.events hlog]
    -- the checks read the counter only, and the insertion reads the events
    by_cases hzero : first.position = 0
    · rw [if_pos hzero, if_pos hzero]
      exact ⟨rfl, h⟩
    · rw [if_neg hzero, if_neg hzero]
      by_cases hstands : t.counter name ≠ first.position - 1
      · rw [if_pos hstands, if_pos hstands]
        exact ⟨rfl, h⟩
      · rw [if_neg hstands, if_neg hstands]
        rcases t.events.insertAll (first :: rest) with ⟨_ | err, table⟩
        · exact ⟨rfl, (h.insert _).get?_eq, fun _ => rfl⟩
        · exact ⟨rfl, h.get?_eq, fun _ => rfl⟩

end Store

namespace Call

/-- **A call on one counter**, that stores no events if it is to be `silent`. -/
def OnCounter (name : String) (silent : Prop) : Call → Prop
  | findCounter other => other = name
  | insertCounter other _ => other = name
  | advanceCounter other _ _ => other = name
  | commitEvents other events => other = name ∧ (silent → events = [])
  | _ => False

variable {call : Call} {name : String} {silent log : Prop} {s t : Store}

/-- A silent call leaves the events as they were. -/
theorem OnCounter.events (h : call.OnCounter name silent) (hsilent : silent) (s : Store) :
    (call.perform s).2.events = s.events := by
  cases call with
  | commitEvents other events =>
    rw [h.2 hsilent]
    rfl
  | findCounter | insertCounter | advanceCounter => exact events_of_keepsLog rfl s
  | _ => exact absurd h id

/-- **What a call on a counter does depends on the counter**, and on the events if it may store
any. -/
theorem OnCounter.alike (h : call.OnCounter name silent) (hs : s.Alike name log t)
    (hlog : silent ∨ log) :
    (call.perform s).1 = (call.perform t).1 ∧
      (call.perform s).2.Alike name log (call.perform t).2 := by
  cases call with
  | findCounter other =>
    obtain rfl : other = name := h
    exact ⟨congrArg Except.ok hs.get?_eq, hs⟩
  | insertCounter other value =>
    obtain rfl : other = name := h
    obtain ⟨hanswer, hstore⟩ := hs.insertCounter value
    exact ⟨congrArg Except.ok hanswer, hstore⟩
  | advanceCounter other expected value =>
    obtain rfl : other = name := h
    obtain ⟨hanswer, hstore⟩ := hs.advanceCounter expected value
    exact ⟨congrArg Except.ok hanswer, hstore⟩
  | commitEvents other events =>
    obtain ⟨rfl, hnil⟩ := h
    rcases hlog with hsilent | hlog
    · rw [hnil hsilent]
      exact ⟨rfl, hs⟩
    · exact hs.commitEvents hlog events
  | _ => exact absurd h id

/-- **A step of a procedure that makes calls on a counter** depends on the counter, and on the
events if it may store any. -/
theorem OnCounter.step_alike {σ ρ : Type} {p : Progress σ ρ}
    (hp : p.Calls (OnCounter name silent)) (hs : s.Alike name log t) (hlog : silent ∨ log)
    (state : σ) :
    (p.step none state s).1 = (p.step none state t).1 ∧
      (p.step none state s).2.Alike name log (p.step none state t).2 := by
  cases p with
  | asks call resume =>
    obtain ⟨hanswer, hstore⟩ := (hp call resume rfl).alike hs hlog
    exact ⟨congrArg resume hanswer, hstore⟩
  | _ => exact ⟨rfl, hs⟩

end Call

/-! ### Users of counters -/

/-- The number that the claim of one number has come to, if it has. -/
def Allocation.numbers : Allocation → List Nat
  | done (.ok n) => [n]
  | _ => []

/-- The events that a commit has stored. -/
def Commit.stored : Commit → List Event
  | done (.ok (_, events)) => events
  | _ => []

/-- **The claim of one number** is given the next number of the counter when it ends, and nothing
before. -/
theorem Allocation.step_handsOut (a : Allocation) (name : String) {s : Store}
    (hs : s.events.Coherent) :
    ∃ count, ((a.next name).step none a s).1.numbers =
        a.numbers ++ List.range' (s.counter name + 1) count ∧
      (a.numbers = [] ∨ count = 0) ∧
      s.HandsOut name count [] ((a.next name).step none a s).2 := by
  cases a with
  | reading =>
    refine ⟨0, ?_, Or.inr rfl, Store.handsOut_refl hs name⟩
    simp only [next, Progress.step, Call.perform]
    cases s.counters.get? name with
    | none => rfl
    | some current =>
      dsimp only
      cases Sequence.succ? current <;> rfl
  | creating =>
    refine ⟨0, rfl, Or.inr rfl, ?_⟩
    simp only [next, Progress.step, Call.perform, Store.insertCounter]
    split
    · exact Store.handsOut_refl hs name
    · -- a counter that did not exist stood at zero
      next hnew =>
      have hnone := SortedMap.contains_eq_false_iff.mp (Bool.eq_false_iff.mpr hnew)
      have hzero : s.counter name = 0 := by rw [Store.counter, hnone, Option.getD_none]
      have hset := Store.handsOut_insert hs name 0
      rwa [hzero] at hset
  | claiming current =>
    simp only [next, Progress.step, Call.perform, Store.advanceCounter]
    by_cases hcurrent : s.counters.get? name = some current
    · have hcounter : s.counter name = current := by rw [Store.counter, hcurrent, Option.getD_some]
      have hset := Store.handsOut_insert hs name 1
      rw [hcounter] at hset
      rw [if_pos hcurrent, hcounter]
      exact ⟨1, rfl, Or.inl rfl, hset⟩
    · rw [if_neg hcurrent]
      exact ⟨0, rfl, Or.inr rfl, Store.handsOut_refl hs name⟩
  | retrying => exact ⟨0, rfl, Or.inr rfl, Store.handsOut_refl hs name⟩
  | done result => exact ⟨0, (List.append_nil _).symm, Or.inr rfl, Store.handsOut_refl hs name⟩

/-- **A commit** is given the next numbers of the counter when its events are stored, and nothing
before. -/
theorem Commit.step_handsOut (c : Commit) (name : String) {build : Nat → List Event}
    (hbuild : ∀ first, InRow (build first)) {s : Store} (hs : s.events.Coherent) :
    ∃ batch, ((c.next name build).step none c s).1.stored = c.stored ++ batch ∧
      batch.map (·.position) = List.range' (s.counter name + 1) batch.length ∧
      (c.stored = [] ∨ batch = []) ∧
      s.HandsOut name batch.length batch ((c.next name build).step none c s).2 := by
  cases c with
  | reading tried =>
    refine ⟨[], ?_, rfl, Or.inr rfl, Store.handsOut_refl hs name⟩
    simp only [next, Progress.step, Call.perform]
    cases Sequence.succ? ((s.counters.get? name).getD 0) <;> rfl
  | storing tried first =>
    simp only [next, Progress.step, Call.perform]
    rcases Store.handsOut_commitEvents hs name (hbuild first) with
      ⟨hanswer, hnone⟩ | ⟨hanswer, hnumbers, hgives⟩
    · refine ⟨[], ?_, rfl, Or.inr rfl, hnone⟩
      split
      · next htrue => exact absurd htrue hanswer
      · rfl
      · rfl
    · refine ⟨build first, ?_, hnumbers, Or.inl rfl, hgives⟩
      rw [hanswer]
      rfl
  | retrying tried => exact ⟨[], rfl, rfl, Or.inr rfl, Store.handsOut_refl hs name⟩
  | done result =>
    exact ⟨[], (List.append_nil _).symm, rfl, Or.inr rfl, Store.handsOut_refl hs name⟩

/-- **What a counter is used for.** -/
inductive CounterUse
  /-- A number is taken. -/
  | allocation (counter : String)
  /-- A batch is committed at the next numbers. -/
  | commit (counter : String) (numbering : Numbering)

/-- The counter that is to be used. -/
def CounterUse.counter : CounterUse → String
  | allocation counter => counter
  | commit counter _ => counter

/-- A use that stores no events, because none are to be committed. -/
def CounterUse.Silent : CounterUse → Prop
  | allocation _ => True
  | commit _ numbering => ∀ first, numbering.build first = []

/-- **A user of a counter**, and how far it has come. -/
inductive CounterUser
  /-- It takes a number. -/
  | allocates (counter : String) (allocation : Allocation)
  /-- It commits a batch. -/
  | commits (counter : String) (numbering : Numbering) (commit : Commit)

namespace CounterUser

/-- A user that has not begun. -/
def start : CounterUse → CounterUser
  | .allocation counter => allocates counter .reading
  | .commit counter numbering => commits counter numbering .start

/-- What a user does next. -/
def next : CounterUser → Progress CounterUser Unit
  | allocates counter allocation =>
    (allocation.next counter).within (allocates counter) fun _ => .finished ()
  | commits counter numbering commit =>
    (commit.next counter numbering.build).within (commits counter numbering) fun _ => .finished ()

/-- The counter that a user uses. -/
def counter : CounterUser → String
  | allocates counter _ => counter
  | commits counter _ _ => counter

/-- The events that a user has stored. -/
def stored : CounterUser → List Event
  | allocates _ _ => []
  | commits _ _ commit => commit.stored

/-- The numbers that a user has been given. -/
def numbers : CounterUser → List Nat
  | allocates _ allocation => allocation.numbers
  | commits _ _ commit => commit.stored.map (·.position)

/-- The numbers that a user has been given from a counter. -/
def numbersOf (name : String) (u : CounterUser) : List Nat :=
  if u.counter = name then u.numbers else []

/-- **A step of a user** is a step of what it is at. -/
theorem step_eq (u : CounterUser) (s : Store) :
    u.next.step none u s = match u with
      | allocates counter a =>
        (allocates counter ((a.next counter).step none a s).1, ((a.next counter).step none a s).2)
      | commits counter n c =>
        (commits counter n ((c.next counter n.build).step none c s).1,
          ((c.next counter n.build).step none c s).2) := by
  cases u <;> simp only [next, Progress.step_within_finished]

/-- A user stays with its counter. -/
theorem counter_step (u : CounterUser) (s : Store) :
    (u.next.step none u s).1.counter = u.counter := by
  rw [step_eq]
  cases u <;> rfl

/-- **What a step of a user is given**: the next numbers of its counter, once. -/
theorem step_handsOut (u : CounterUser) {s : Store} (hs : s.events.Coherent) :
    ∃ count batch, (u.next.step none u s).1.numbers =
        u.numbers ++ List.range' (s.counter u.counter + 1) count ∧
      (u.next.step none u s).1.stored = u.stored ++ batch ∧
      (u.numbers = [] ∨ count = 0) ∧
      s.HandsOut u.counter count batch (u.next.step none u s).2 := by
  rw [step_eq]
  cases u with
  | allocates counter a =>
    obtain ⟨count, hnumbers, honce, hgives⟩ := a.step_handsOut counter hs
    exact ⟨count, [], hnumbers, rfl, honce, hgives⟩
  | commits counter n c =>
    obtain ⟨batch, hstored, hnumbers, honce, hgives⟩ := c.step_handsOut counter n.inRow hs
    refine ⟨batch.length, batch, ?_, hstored, ?_, hgives⟩
    · simp only [numbers, hstored, List.map_append, hnumbers]
      rfl
    · refine honce.imp (fun hnil => ?_) fun hnil => ?_
      · simp only [numbers, hnil, List.map_nil]
      · rw [hnil, List.length_nil]

/-! ### Users of different counters -/

/-- **A user that stores no events**, because it commits none. -/
def Silent : CounterUser → Prop
  | allocates _ _ => True
  | commits _ numbering _ => ∀ first, numbering.build first = []

/-- A user makes calls on its counter only. -/
theorem next_onCounter (u : CounterUser) : u.next.Calls (Call.OnCounter u.counter u.Silent) := by
  cases u with
  | allocates counter a =>
    have hcalls : (a.next counter).Calls (Call.OnCounter counter True) := by
      cases a with
      | reading => exact Progress.calls_asks (rfl : counter = counter) _
      | creating => exact Progress.calls_asks (rfl : counter = counter) _
      | claiming n => exact Progress.calls_asks (rfl : counter = counter) _
      | _ => exact nofun
    exact hcalls.within fun _ _ => Progress.calls_finished _
  | commits counter n c =>
    have hcalls : (c.next counter n.build).Calls
        (Call.OnCounter counter (∀ first, n.build first = [])) := by
      cases c with
      | reading tried => exact Progress.calls_asks (rfl : counter = counter) _
      | storing tried first =>
        have hcall : (Call.commitEvents counter (n.build first)).OnCounter counter
            (∀ first, n.build first = []) := ⟨rfl, fun hnil => hnil first⟩
        exact Progress.calls_asks hcall _
      | _ => exact nofun
    exact hcalls.within fun _ _ => Progress.calls_finished _

theorem Silent.step {u : CounterUser} (h : u.Silent) (s : Store) :
    (u.next.step none u s).1.Silent := by
  rw [step_eq]
  cases u with
  | allocates counter a => trivial
  | commits counter n c => exact h

end CounterUser

namespace Interleaving

/-! ### What users have been given -/

/-- Users of counters that are about to begin on a store. -/
def ofCounterUses (s : Store) (uses : List CounterUse) : Interleaving CounterUser :=
  ⟨s, uses.map CounterUser.start⟩

/-- The numbers that users have been given from a counter. -/
def numbersOf (name : String) (x : Interleaving CounterUser) : List Nat :=
  x.states.flatMap (·.numbersOf name)

/-- **The numbers that counters have handed out** since they stood as in a store. -/
structure Dealt (s : Store) (x : Interleaving CounterUser) : Prop where
  /-- The indexes describe the events. -/
  coherent : x.store.events.Coherent
  /-- No counter has gone back. -/
  counter_le : ∀ name, s.counter name ≤ x.store.counter name
  /-- What was handed out are the numbers from where the counter stood to where it stands. -/
  numbers_perm : ∀ name, (x.numbersOf name).Perm
    (List.range' (s.counter name + 1) (x.store.counter name - s.counter name))
  /-- Each user has been given a block. -/
  block : ∀ u ∈ x.states, ∃ first, u.numbers = List.range' first u.numbers.length
  /-- The events. -/
  mem_iff : ∀ e, e ∈ x.store.events.toList ↔
    e ∈ s.events.toList ∨ ∃ u ∈ x.states, e ∈ u.stored

theorem dealt_ofCounterUses {s : Store} (hs : s.events.Coherent) (uses : List CounterUse) :
    (ofCounterUses s uses).Dealt s := by
  have hnothing : ∀ u ∈ (ofCounterUses s uses).states, u.numbers = [] ∧ u.stored = [] := by
    intro u hu
    obtain ⟨use, -, rfl⟩ := List.mem_map.mp hu
    cases use <;> exact ⟨rfl, rfl⟩
  refine ⟨hs, fun name => le_rfl, fun name => ?_, fun u hu => ?_, fun e => ?_⟩
  · have hnil : (ofCounterUses s uses).numbersOf name = [] := by
      refine List.flatMap_eq_nil_iff.mpr fun u hu => ?_
      rw [CounterUser.numbersOf, (hnothing u hu).1, ite_self]
    rw [hnil]
    simp [ofCounterUses]
  · exact ⟨0, by rw [(hnothing u hu).1]; rfl⟩
  · refine (or_iff_left ?_).symm
    rintro ⟨u, hu, he⟩
    rw [(hnothing u hu).2] at he
    exact List.not_mem_nil he

variable {s : Store} {x y : Interleaving CounterUser}

/-- **Whoever takes a step**, what counters have handed out stays dealt. -/
theorem Dealt.step (h : x.Dealt s) {i : Nat} {u : CounterUser} (hi : x.states[i]? = some u) :
    Dealt s ⟨(u.next.step none u x.store).2,
      x.states.set i (u.next.step none u x.store).1⟩ := by
  obtain ⟨count, batch, hnumbers, hstored, honce, hgives⟩ := u.step_handsOut h.coherent
  have hcounter := u.counter_step x.store
  have hcounters : ∀ name, (u.next.step none u x.store).2.counter name =
      x.store.counter name + if u.counter = name then count else 0 := by
    intro name
    by_cases hname : u.counter = name
    · subst hname
      rw [if_pos rfl, hgives.counter_eq]
    · rw [if_neg hname, Store.counter, hgives.counters_of_ne name (Ne.symm hname)]
      rfl
  refine ⟨hgives.coherent, fun name => ?_, fun name => ?_, ?_, fun e => ?_⟩
  · rw [hcounters]
    exact (h.counter_le name).trans (Nat.le_add_right _ _)
  · -- the block comes right after what was handed out before
    have hadded : (u.next.step none u x.store).1.numbersOf name = u.numbersOf name ++
        List.range' (x.store.counter name + 1) (if u.counter = name then count else 0) := by
      rw [CounterUser.numbersOf, CounterUser.numbersOf, hcounter]
      split
      · next hname => rw [hnumbers, hname]
      · rfl
    refine (flatMap_set_perm hi hadded).trans (((h.numbers_perm name).append_right _).trans ?_)
    have hle := h.counter_le name
    have hjoin : s.counter name + 1 + (x.store.counter name - s.counter name) =
        x.store.counter name + 1 := by omega
    rw [hcounters, Nat.sub_add_comm hle, ← List.range'_append_1, hjoin]
  · refine forall_mem_set h.block ?_
    obtain ⟨first, hfirst⟩ := h.block u (List.mem_of_getElem? hi)
    rw [hnumbers]
    rcases honce with hnil | rfl
    · exact ⟨_, by rw [hnil, List.nil_append, List.length_range']⟩
    · exact ⟨first, by simpa using hfirst⟩
  · rw [hgives.mem_iff, h.mem_iff, or_assoc]
    refine or_congr_right ?_
    rw [exists_mem_set_iff hi fun he => ?_]
    · rw [hstored, List.mem_append]
      refine ⟨?_, ?_⟩
      · rintro (hold | hnew)
        · exact Or.inl hold
        · exact Or.inr (Or.inr hnew)
      · rintro (hold | hown | hnew)
        · exact Or.inl hold
        · exact Or.inl ⟨u, List.mem_of_getElem? hi, hown⟩
        · exact Or.inr hnew
    · rw [hstored]
      exact List.mem_append_left _ he

theorem Dealt.run (h : x.Dealt s) (schedule : List Nat) :
    (x.run CounterUser.next schedule).Dealt s :=
  run_induction schedule h fun _ _ _ hdealt hi => hdealt.step hi

/-- **What has happened to users of counters since a point of a run.** -/
structure Since (x y : Interleaving CounterUser) : Prop where
  /-- The indexes describe the events. -/
  coherent : y.store.events.Coherent
  /-- No counter has gone back. -/
  counter_le : ∀ name, x.store.counter name ≤ y.store.counter name
  /-- Each user has kept what it had, or has been given numbers that were not handed out then. -/
  numbers : ∀ (i : Nat) (u : CounterUser), x.states[i]? = some u →
    ∃ u' : CounterUser, y.states[i]? = some u' ∧ u'.counter = u.counter ∧
      (u'.numbers = u.numbers ∨ ∀ n ∈ u'.numbers, x.store.counter u.counter < n)

theorem since_refl (h : x.store.events.Coherent) : x.Since x :=
  ⟨h, fun _ => le_rfl, fun _ u hu => ⟨u, hu, rfl, Or.inl rfl⟩⟩

/-- **Numbers that are handed out are greater** than all that were handed out before. -/
theorem since_run (h : x.store.events.Coherent) (schedule : List Nat) :
    x.Since (x.run CounterUser.next schedule) := by
  refine run_induction (P := x.Since) schedule (since_refl h) fun y i u hy hi => ?_
  obtain ⟨count, batch, hnumbers, -, honce, hgives⟩ := u.step_handsOut hy.coherent
  refine ⟨hgives.coherent, fun name => ?_, fun j w hw => ?_⟩
  · refine (hy.counter_le name).trans ?_
    by_cases hname : name = u.counter
    · subst hname
      exact hgives.counter_eq ▸ Nat.le_add_right _ _
    · rw [Store.counter, Store.counter, hgives.counters_of_ne name hname]
  · obtain ⟨w', hw', hcounter, hgiven⟩ := hy.numbers j w hw
    by_cases hij : i = j
    · -- what is given now lies beyond the counter, which has not gone back
      subst hij
      obtain rfl : u = w' := Option.some.inj (hi.symm.trans hw')
      have hlt := (List.getElem?_eq_some_iff.mp hi).1
      refine ⟨_, List.getElem?_set_self hlt, (u.counter_step y.store).trans hcounter, ?_⟩
      rw [hnumbers]
      rcases honce with hnil | rfl
      · refine Or.inr fun n hn => ?_
        rw [hnil, List.nil_append, List.mem_range'_1, hcounter] at hn
        exact (hy.counter_le w.counter).trans_lt hn.1
      · rwa [List.range'_zero, List.append_nil]
    · exact ⟨w', (List.getElem?_set_ne hij).trans hw', hcounter, hgiven⟩

/-! ### Users of one counter without the others -/

/-- **A run beside one in which only the users of one counter go on**, when events are stored at
the counter `name` only. -/
structure Beside (name counter : String) (own : Nat → Bool) (x y : Interleaving CounterUser) :
    Prop where
  /-- The indexes describe the events. -/
  coherent : x.store.events.Coherent
  /-- The counter stands where it stands in the other run. -/
  store : x.store.Alike counter (counter = name) y.store
  /-- The users are the same. -/
  length_eq : x.states.length = y.states.length
  /-- Those of the counter have come as far. -/
  states : ∀ (i : Nat) (u : CounterUser), x.states[i]? = some u → u.counter = counter →
    y.states[i]? = some u
  /-- Which they are. -/
  own_iff : ∀ (i : Nat) (u : CounterUser), x.states[i]? = some u →
    (own i = true ↔ u.counter = counter)
  /-- Users of other counters store no events. -/
  silent : ∀ u ∈ x.states, u.counter ≠ name → u.Silent

variable {name counter : String} {own : Nat → Bool} {i : Nat} {u : CounterUser}

/-- What a step leaves of the users as they are. -/
theorem Beside.step_frame (h : x.Beside name counter own y) (hi : x.states[i]? = some u) :
    (∀ (j : Nat) (w : CounterUser), (x.states.set i (u.next.step none u x.store).1)[j]? = some w →
      (own j = true ↔ w.counter = counter)) ∧
    ∀ w ∈ x.states.set i (u.next.step none u x.store).1, w.counter ≠ name → w.Silent := by
  have hlt := (List.getElem?_eq_some_iff.mp hi).1
  have hcounter := u.counter_step x.store
  constructor
  · intro j w hw
    by_cases hij : i = j
    · subst hij
      obtain rfl := Option.some.inj ((List.getElem?_set_self hlt).symm.trans hw)
      rw [hcounter]
      exact h.own_iff i u hi
    · exact h.own_iff j w ((List.getElem?_set_ne hij).symm.trans hw)
  · refine forall_mem_set h.silent fun hne => ?_
    rw [hcounter] at hne
    exact (h.silent u (List.mem_of_getElem? hi) hne).step x.store

/-- A user of the counter takes a step in both runs. -/
theorem Beside.step_own (h : x.Beside name counter own y) (hi : x.states[i]? = some u)
    (hu : u.counter = counter) :
    (x.step CounterUser.next i).Beside name counter own (y.step CounterUser.next i) := by
  subst hu
  have hi' := h.states i u hi rfl
  obtain ⟨hframe, hsilent⟩ := h.step_frame hi
  have hlog : u.Silent ∨ u.counter = name := by
    by_cases hname : u.counter = name
    · exact Or.inr hname
    · exact Or.inl (h.silent u (List.mem_of_getElem? hi) hname)
  obtain ⟨hstate, hstore⟩ := Call.OnCounter.step_alike u.next_onCounter h.store hlog u
  obtain ⟨count, batch, -, -, -, hgives⟩ := u.step_handsOut h.coherent
  rw [step_of_getElem? hi, step_of_getElem? hi', ← hstate]
  refine ⟨hgives.coherent, hstore, ?_, fun j w hw hcounter => ?_, hframe, hsilent⟩
  · rw [List.length_set, List.length_set]
    exact h.length_eq
  have hlt := (List.getElem?_eq_some_iff.mp hi).1
  have hlt' := (List.getElem?_eq_some_iff.mp hi').1
  by_cases hij : i = j
  · subst hij
    exact (List.getElem?_set_self hlt').trans ((List.getElem?_set_self hlt).symm.trans hw)
  · exact (List.getElem?_set_ne hij).trans
      (h.states j w ((List.getElem?_set_ne hij).symm.trans hw) hcounter)

/-- A user of another counter takes a step in the one run, which the other does not notice. -/
theorem Beside.step_other (h : x.Beside name counter own y) (hi : x.states[i]? = some u)
    (hu : u.counter ≠ counter) : (x.step CounterUser.next i).Beside name counter own y := by
  obtain ⟨hframe, hsilent⟩ := h.step_frame hi
  obtain ⟨count, batch, -, -, -, hgives⟩ := u.step_handsOut h.coherent
  rw [step_of_getElem? hi]
  refine ⟨hgives.coherent, ⟨?_, fun hname => ?_⟩, (List.length_set).trans h.length_eq,
    fun j w hw hcounter => ?_, hframe, hsilent⟩
  · exact (hgives.counters_of_ne counter (Ne.symm hu)).trans h.store.get?_eq
  · -- the events matter at their own counter only, and nobody else stores any
    refine Eq.trans ?_ (h.store.events hname)
    have hnone := h.silent u (List.mem_of_getElem? hi) (hname ▸ hu)
    rcases u.next_onCounter.step_store none u x.store with heq | ⟨call, hcall, heq⟩
    · exact congrArg Store.events heq
    · exact (congrArg Store.events heq).trans (hcall.events hnone x.store)
  · by_cases hij : i = j
    · subst hij
      have hlt := (List.getElem?_eq_some_iff.mp hi).1
      obtain rfl := Option.some.inj ((List.getElem?_set_self hlt).symm.trans hw)
      exact absurd ((u.counter_step x.store).symm.trans hcounter) hu
    · exact h.states j w ((List.getElem?_set_ne hij).symm.trans hw) hcounter

/-- **The users of a counter do not notice the others**, in whatever order they go on. -/
theorem Beside.run (h : x.Beside name counter own y) (schedule : List Nat) :
    (x.run CounterUser.next schedule).Beside name counter own
      (y.run CounterUser.next (schedule.filter own)) := by
  induction schedule generalizing x y with
  | nil => exact h
  | cons i rest ih =>
    rw [run_cons]
    cases hi : x.states[i]? with
    | none =>
      -- nobody has this number, in neither run
      have hi' : y.states[i]? = none := by
        rw [List.getElem?_eq_none_iff, ← h.length_eq]
        exact List.getElem?_eq_none_iff.mp hi
      have hrest := ih h
      rw [step_eq_self hi]
      cases hown : own i with
      | false => rwa [List.filter_cons_of_neg (by simp [hown])]
      | true => rwa [List.filter_cons_of_pos hown, run_cons, step_eq_self hi']
    | some u =>
      by_cases hu : u.counter = counter
      · rw [List.filter_cons_of_pos ((h.own_iff i u hi).mpr hu), run_cons]
        exact ih (h.step_own hi hu)
      · rw [List.filter_cons_of_neg fun hown => hu ((h.own_iff i u hi).mp hown)]
        exact ih (h.step_other hi hu)

/-- Whether the user with a number uses a counter. -/
def usesCounter (uses : List CounterUse) (counter : String) (i : Nat) : Bool :=
  uses[i]?.any fun use => use.counter = counter

theorem beside_ofCounterUses {s : Store} (hs : s.events.Coherent) {uses : List CounterUse}
    {name : String} (huses : ∀ use ∈ uses, use.counter ≠ name → use.Silent) (counter : String) :
    (ofCounterUses s uses).Beside name counter (usesCounter uses counter)
      (ofCounterUses s uses) := by
  refine ⟨hs, ⟨rfl, fun _ => rfl⟩, rfl, fun i u hu _ => hu, fun i u hu => ?_, fun u hu hne => ?_⟩
  · obtain ⟨use, huse, rfl⟩ := Option.map_eq_some_iff.mp (List.getElem?_map.symm.trans hu)
    rw [usesCounter, huse, Option.any_some, decide_eq_true_iff]
    cases use <;> exact Iff.rfl
  · obtain ⟨use, huse, rfl⟩ := List.mem_map.mp hu
    cases use with
    | allocation counter => trivial
    | commit counter numbering => exact huses _ huse hne

/-- **A counter hands out each number once and leaves none out.** Users take numbers from the
counters of a store and commit batches at them, in any order of their steps. At any moment, the
numbers that users have been given from a counter are all different, and are those from where it
stood at first to where it stands; each user has been given a block of them, and the events that
are stored are those of before and those of the batches that were given theirs. Whoever has none
yet will be given greater ones than all that were given to others. If events are stored at one
counter only, the users of a counter are given what they would be given without the users of all
other counters, and leave their counter where it would be. -/
theorem numbers_given_once_in_order {s : Store} (hs : s.events.Coherent) (uses : List CounterUse)
    (schedule later : List Nat) {x y : Interleaving CounterUser}
    (hx : (ofCounterUses s uses).run CounterUser.next schedule = x)
    (hy : x.run CounterUser.next later = y) (name : String) :
    (x.numbersOf name).Nodup ∧
      s.counter name ≤ x.store.counter name ∧
      (∀ n, n ∈ x.numbersOf name ↔ s.counter name < n ∧ n ≤ x.store.counter name) ∧
      (∀ u ∈ x.states, ∃ first, u.numbers = List.range' first u.numbers.length) ∧
      (∀ e, e ∈ x.store.events.toList ↔
        e ∈ s.events.toList ∨ ∃ u ∈ x.states, e ∈ u.stored) ∧
      (∀ (i : Nat) (u u' : CounterUser), x.states[i]? = some u → y.states[i]? = some u' →
        u.counter = name → u.numbers = [] → ∀ n ∈ u'.numbers, ∀ m ∈ x.numbersOf name, m < n) ∧
      ((∀ use ∈ uses, use.counter ≠ name → use.Silent) → ∀ counter,
        let alone := (ofCounterUses s uses).run CounterUser.next
          (schedule.filter (usesCounter uses counter))
        alone.store.counters.get? counter = x.store.counters.get? counter ∧
          ∀ (i : Nat) (u : CounterUser), x.states[i]? = some u → u.counter = counter →
            alone.states[i]? = some u) := by
  have hdealt := (dealt_ofCounterUses hs uses).run schedule
  rw [hx] at hdealt
  have hperm := hdealt.numbers_perm name
  have hle := hdealt.counter_le name
  have hmem : ∀ n, n ∈ x.numbersOf name ↔ s.counter name < n ∧ n ≤ x.store.counter name := by
    intro n
    rw [hperm.mem_iff, List.mem_range'_1]
    omega
  refine ⟨hperm.nodup_iff.mpr List.nodup_range', hle, hmem, hdealt.block, hdealt.mem_iff, ?_, ?_⟩
  · intro i u u' hu hu' hname hnil n hn m hm
    have hsince := since_run hdealt.coherent later
    rw [hy] at hsince
    obtain ⟨w, hw, -, hgiven⟩ := hsince.numbers i u hu
    obtain rfl : u' = w := Option.some.inj (hu'.symm.trans hw)
    rcases hgiven with hsame | hbeyond
    · rw [hsame, hnil] at hn
      exact absurd hn List.not_mem_nil
    · -- what was given to others is not beyond where the counter stood then
      exact ((hmem m).mp hm).2.trans_lt (hname ▸ hbeyond n hn)
  · intro huses counter alone
    have hbeside := (beside_ofCounterUses hs huses counter).run schedule
    rw [hx] at hbeside
    exact ⟨hbeside.store.get?_eq.symm, hbeside.states⟩

/-- Two users that take a number from a counter that does not exist, one that commits two events at
it, and one that takes a number from another. -/
def someCounterUses : List CounterUse :=
  [.allocation "a", .allocation "a",
    .commit "a" ⟨(Batch.ofNumbers 3 0 [10, 11]).placed, Batch.inRow_placed _⟩, .allocation "b"]

/-- An order of their steps in which the first two both want to make the counter, the first comes
before the others, and the commit before the second. -/
def racingSchedule : List Nat := [0, 1, 3, 0, 1, 0, 1, 2, 0, 1, 2, 2, 3, 2, 2, 1]

theorem numbers_given_once_in_order_racing :
    let x := (ofCounterUses .empty someCounterUses).run CounterUser.next racingSchedule
    x.numbersOf "a" = [1, 2, 3] ∧ x.store.counter "a" = 3 ∧ (x.numbersOf "a").Nodup ∧
      (∀ n, n ∈ x.numbersOf "a" ↔ 0 < n ∧ n ≤ 3) ∧
      (∃ u', (x.run CounterUser.next [1, 1]).states[1]? = some u' ∧ u'.numbers = [4] ∧
        ∀ n ∈ u'.numbers, ∀ m ∈ x.numbersOf "a", m < n) ∧
      ((ofCounterUses .empty someCounterUses).run CounterUser.next [3, 3]).store.counters.get? "b" =
        x.store.counters.get? "b" := by
  intro x
  have hnumbers : x.numbersOf "a" = [1, 2, 3] := by decide +kernel
  have hcounter : x.store.counter "a" = 3 := by decide +kernel
  obtain ⟨u, hu, hbefore⟩ : ∃ u, x.states[1]? = some u ∧ (u.counter, u.numbers) = ("a", []) :=
    Option.map_eq_some_iff.mp (by decide +kernel)
  obtain ⟨u', hu', hafter⟩ : ∃ u, (x.run CounterUser.next [1, 1]).states[1]? = some u ∧
      u.numbers = [4] := Option.map_eq_some_iff.mp (by decide +kernel)
  have hsilent : ∀ use ∈ someCounterUses, use.counter ≠ "a" → use.Silent := by
    simp [someCounterUses, CounterUse.counter, CounterUse.Silent]
  have hown : racingSchedule.filter (usesCounter someCounterUses "b") = [3, 3] := by decide
  obtain ⟨hnodup, -, hmem, -, -, hgreater, halone⟩ :=
    numbers_given_once_in_order (s := .empty) EventTable.coherent_empty someCounterUses
      racingSchedule [1, 1] (x := x) rfl rfl "a"
  rw [hcounter] at hmem
  rw [Prod.mk.injEq] at hbefore
  refine ⟨hnumbers, hcounter, hnodup, hmem, ⟨u', hu', hafter, ?_⟩, ?_⟩
  · exact hgreater 1 u u' hu hu' hbefore.1 hbefore.2
  · rw [← hown]
    exact (halone hsilent "b").1

end Interleaving

end EventJournal
