import EventJournal.Proofs.EventOrder
import EventJournal.Proofs.Store

/-!
# Commits, all or nothing

A commit is asked to store a list of events and to move a counter to the last of them. It looks
at the position of the first event only; the events need not stand in a row, and any of them may
have a key that another has, be it a stored one or one of the list. So it may find out late, with
some of the events inserted, that it cannot go on.

Whatever the store has been used for and whatever is committed, the commit is made as a whole or
not at all (`EventJournal.Store.all_or_nothing`):

| the list | the counter | keys | answer |
|---|---|---|---|
| empty | | | made |
| the first position is zero | | | out of range |
| any other | is elsewhere | | not made |
| any other | is right before the first | some key is had twice | duplicate |
| any other | is right before the first | none is | made |

Not at all means that no call could tell that there was a commit. An answer is a matter of what is
read (`EventJournal.Store.Agrees.answer_eq`), and an index with nothing in it, which is all that
an undone insertion leaves behind, is not read.
-/

namespace EventJournal

/-! ### Keys -/

/-- **Events that can be stored together**: no key is had twice. -/
def Event.Distinct (events : List Event) : Prop := events.Pairwise fun a b => ¬a.Clash b

theorem Event.Distinct.nodup {events : List Event} (h : Event.Distinct events) : events.Nodup :=
  h.imp fun hclash heq => hclash (Or.inl (congrArg Event.position heq))

namespace EventTable

variable {t : EventTable} {events : List Event}

theorem Coherent.distinct (h : t.Coherent) : Event.Distinct t.toList := by
  refine h.pairwise_toList.imp_of_mem fun {a b} ha hb hlt hclash => ?_
  rw [h.eq_of_clash ha hb hclash] at hlt
  exact Nat.lt_irrefl _ hlt

/-- **A batch goes in** if its events can be stored together with those of the table. -/
theorem Coherent.insertAll_iff_distinct (h : t.Coherent) :
    (t.insertAll events).1 = none ↔ Event.Distinct (t.toList ++ events) := by
  rw [insertAll_eq_none_iff h, Event.Distinct, List.pairwise_append]
  constructor
  · rintro ⟨hstored, hbatch⟩
    exact ⟨h.distinct, hbatch, hstored⟩
  · rintro ⟨-, hbatch, hstored⟩
    exact ⟨hstored, hbatch⟩

/-- A batch that goes in is all that comes to the table. -/
theorem Coherent.perm_insertAll (h : t.Coherent) (hnone : (t.insertAll events).1 = none) :
    (t.insertAll events).2.toList.Perm (t.toList ++ events) := by
  obtain ⟨hcoherent, hmem⟩ := insertAll_of_none h hnone
  have hnodup := (h.insertAll_iff_distinct.mp hnone).nodup
  refine (List.perm_ext_iff_of_nodup hcoherent.distinct.nodup hnodup).mpr fun e => ?_
  rw [hmem, List.mem_append]

end EventTable

namespace Store

/-! ### Answers -/

/-- **An answer is a matter of what is read.** -/
theorem Agrees.answer_eq {s s' : Store} (h : s.Agrees s') (call : Call) :
    (call.perform s).1 = (call.perform s').1 := by
  cases call with
  | commitEvents sequence events =>
    cases events with
    | nil => rfl
    | cons first rest =>
      simp only [Call.perform]
      rw [commitEvents_fst, commitEvents_fst, h.counter_eq, h.events.insertAll_fst]
  | eventsOfStream stream first last => simp only [Call.perform, h.events.ofStream]
  | eventsAfter position limit => simp only [Call.perform, h.events.after]
  | positionOf event => simp only [Call.perform, h.events.positionOf]
  | findHead stream => simp only [Call.perform, h.heads]
  | insertHead head =>
    simp only [Call.perform, insertHead, h.heads]
    split <;> rfl
  | advanceHead stream expected version =>
    simp only [Call.perform, advanceHead, h.heads]
    split
    · split <;> rfl
    · rfl
  | insertSnapshot snapshot => rfl
  | findSnapshot stream limit => simp only [Call.perform, findSnapshot, h.snapshots]
  | findCounter name => simp only [Call.perform, h.counters]
  | insertCounter name value =>
    simp only [Call.perform, insertCounter, h.counters]
    split <;> rfl
  | advanceCounter name expected value =>
    simp only [Call.perform, advanceCounter, h.counters]
    split <;> rfl
  | insertCheckpoint row =>
    simp only [Call.perform, insertCheckpoint, h.checkpoints]
    split <;> rfl
  | latestCheckpoint pipeline => simp only [Call.perform, latestCheckpoint, h.checkpoints]

/-! ### Histories -/

/-- **The store that calls leave of a new one**, the latest of them standing first. -/
def afterCalls : (history : List Call) → Store
  | [] => .empty
  | call :: earlier => (call.perform (afterCalls earlier)).2

theorem coherent_afterCalls (history : List Call) : (afterCalls history).events.Coherent := by
  induction history with
  | nil => exact EventTable.coherent_empty
  | cons call earlier ih => exact call.perform_coherent ih

/-! ### All or nothing -/

/-- **A commit that is made as a whole or not at all.** The store is `s` before it, and `s'` when
it has answered `r`. -/
structure AllOrNothing (s : Store) (sequence : String) (events : List Event)
    (r : Except StoreError Bool) (s' : Store) : Prop where
  /-- A commit of no events is made, and changes nothing. -/
  empty : events = [] → r = .ok true ∧ s' = s
  /-- The first event must have a position. -/
  outOfRange : ∀ first, events.head? = some first → first.position = 0 →
    r = .error (.outOfRange "global_seq" 0)
  /-- Otherwise the commit is not made if the counter has another value than the one right before
  the first event. -/
  false_iff : ∀ first, events.head? = some first → 0 < first.position →
    (r = .ok false ↔ s.counter sequence ≠ first.position - 1)
  /-- It is made if the counter has that value and no key is had twice, in the list or in list and
  store. -/
  true_iff : ∀ first, events.head? = some first → 0 < first.position →
    (r = .ok true ↔
      s.counter sequence = first.position - 1 ∧ Event.Distinct (s.events.toList ++ events))
  /-- In all other cases it is told that a key is taken. -/
  duplicate_iff : ∀ first, events.head? = some first → 0 < first.position →
    ((∃ entity key, r = .error (.duplicate entity key)) ↔
      s.counter sequence = first.position - 1 ∧ ¬Event.Distinct (s.events.toList ++ events))
  /-- A commit that is made adds its events and moves the counter to the last of them; nothing
  else is changed. -/
  made : ∀ last, events.getLast? = some last → r = .ok true →
    s'.events.toList.Perm (s.events.toList ++ events) ∧
      s' = { s with
        events := s'.events
        counters := s.counters.insert sequence last.position }
  /-- A commit that is not made cannot be told from none: every call is answered as before, and as
  many events are stored. -/
  notMade : r ≠ .ok true →
    (∀ call : Call, (call.perform s').1 = (call.perform s).1) ∧ s'.events.size = s.events.size

section Commits

variable {s s' : Store} {sequence : String} {events rest : List Event} {first : Event}
  {r : Except StoreError Bool}

/-- The three answers to a commit whose first event has a position. -/
theorem Commits.answer_iff (h : s.Commits sequence (first :: rest) r s')
    (hs : s.events.Coherent) (hpos : 0 < first.position) :
    (r = .ok false ↔ s.counter sequence ≠ first.position - 1) ∧
      (r = .ok true ↔ s.counter sequence = first.position - 1 ∧
        Event.Distinct (s.events.toList ++ first :: rest)) ∧
      ((∃ entity key, r = .error (.duplicate entity key)) ↔
        s.counter sequence = first.position - 1 ∧
          ¬Event.Distinct (s.events.toList ++ first :: rest)) := by
  rw [← hs.insertAll_iff_distinct]
  cases h with
  | unplaced hzero => exact absurd hpos (by omega)
  | elsewhere _ hcounter => simp [hcounter]
  | undone _ hcounter hinsert =>
    obtain ⟨entity, key, rfl⟩ :=
      EventTable.duplicate_of_insertAll (congrArg Prod.fst hinsert)
    simp [hcounter, hinsert]
  | stored _ hcounter _ hinsert => simp [hcounter, hinsert]

theorem Commits.allOrNothing (h : s.Commits sequence events r s') (hs : s.events.Coherent) :
    s.AllOrNothing sequence events r s' where
  empty := by
    rintro rfl
    cases h
    exact ⟨rfl, rfl⟩
  outOfRange := by
    intro first hfirst hzero
    obtain ⟨rest, rfl⟩ := List.head?_eq_some_iff.mp hfirst
    cases h with
    | unplaced => rfl
    | elsewhere hpos | undone hpos | stored hpos => omega
  false_iff := by
    intro first hfirst hpos
    obtain ⟨rest, rfl⟩ := List.head?_eq_some_iff.mp hfirst
    exact (h.answer_iff hs hpos).1
  true_iff := by
    intro first hfirst hpos
    obtain ⟨rest, rfl⟩ := List.head?_eq_some_iff.mp hfirst
    exact (h.answer_iff hs hpos).2.1
  duplicate_iff := by
    intro first hfirst hpos
    obtain ⟨rest, rfl⟩ := List.head?_eq_some_iff.mp hfirst
    exact (h.answer_iff hs hpos).2.2
  made := by
    rintro last hlast rfl
    cases h with
    | nothing => cases hlast
    | stored _ _ hlast' hinsert =>
      obtain rfl := Option.some.inj (hlast.symm.trans hlast')
      have hperm := hs.perm_insertAll (congrArg Prod.fst hinsert)
      rw [hinsert] at hperm
      exact ⟨hperm, rfl⟩
  notMade := by
    intro hr
    have hagrees := h.agrees hr
    exact ⟨hagrees.answer_eq, hagrees.events.size⟩

end Commits

/-- **A commit is made as a whole or not at all**, whatever has been done with the store before,
and whatever is to be committed. -/
theorem all_or_nothing (history : List Call) (sequence : String) (events : List Event) :
    let s := afterCalls history
    s.AllOrNothing sequence events (s.commitEvents sequence events).1
      (s.commitEvents sequence events).2 :=
  (commits _ sequence events).allOrNothing (coherent_afterCalls history)

/-- A batch whose second event has the identifier of a stored one leaves nothing of its first. -/
example :
    let event := fun n id => (Draft.ofBytes (.ofNat id) default "E" []).place (.ofNat 1) n (n + 1)
    let s := afterCalls [.commitEvents "a" [event 1 8, event 2 7], .commitEvents "a" [event 0 7]]
    s.events.toList = [event 0 7] ∧ s.events.positionOf (.ofNat 8) = none ∧ s.counter "a" = 1 := by
  decide

end Store

end EventJournal
