import EventJournal.Log.Read
import EventJournal.Proofs.Committing

/-!
# Indexed reads and plain scans

The table of events has three indexes, and each read goes by one of them. What it finds is said
here without any index: there is the list of all events that were ever committed, and a read goes
through the whole list.

| a read | takes of the list | in the order of |
|---|---|---|
| of a stream | the events of the stream between two indexes | their indexes |
| after a position | the first of the events that come after it | their positions |
| for an identifier | the position of the event that has it | |
| after an event | what a read after its position takes | their positions |

The read of a stream takes positions out of one index and looks them up in another. It would drop
an entry without an event, such as a refused commit might leave behind; but after any calls all
three indexes tell of the same events (`EventJournal.EventTable.Indexes`), and so it drops none.
-/

namespace EventJournal

/-! ### Scans -/

/-- Events sorted by a number. -/
def sortedBy (key : Event → Nat) (events : List Event) : List Event :=
  events.mergeSort fun a b => key a ≤ key b

/-- The position of the event with an identifier. -/
def scanFor (id : Uuid) (events : List Event) : Option Nat :=
  (events.find? (·.id = id)).map (·.position)

/-- **Events in a strict order are sorted**, and in no other way can they be. -/
theorem eq_sortedBy {key : Event → Nat} {l events : List Event}
    (h : l.Pairwise fun a b => key a < key b) (hperm : l.Perm events) :
    l = sortedBy key events := by
  have hsorted : (sortedBy key events).Pairwise fun a b => key a ≤ key b := by
    refine (List.pairwise_mergeSort ?_ ?_ events).imp of_decide_eq_true
    · intro a b c hab hbc
      simp only [decide_eq_true_eq] at *
      omega
    · intro a b
      simp only [Bool.or_eq_true, decide_eq_true_eq]
      omega
  have hsame : l.Perm (sortedBy key events) := hperm.trans (List.mergeSort_perm events _).symm
  -- no two events of the list have the same number
  have hnodup : (l.map key).Nodup := List.pairwise_map.mpr (h.imp Nat.ne_of_lt)
  refine hsame.eq_of_pairwise (fun a b ha hb hab hba => ?_) (h.imp Nat.le_of_lt) hsorted
  exact List.inj_on_of_nodup_map hnodup ha (hsame.mem_iff.mpr hb) (Nat.le_antisymm hab hba)

/-! ### Indexes -/

namespace EventTable

/-- **A table all of whose indexes tell of the same events**, no two of which have a key in
common. -/
structure Indexes (t : EventTable) (events : List Event) : Prop where
  /-- No key is had twice. -/
  distinct : Event.Distinct events
  /-- The events by position. -/
  byPosition_iff : ∀ p e, t.byPosition.get? p = some e ↔ e ∈ events ∧ e.position = p
  /-- The positions by identifier. -/
  byId_iff : ∀ id p, t.byId.get? id = some p ↔ ∃ e ∈ events, e.id = id ∧ e.position = p
  /-- The positions by place in a stream. -/
  indexOf_iff : ∀ stream i p, (t.indexOf stream).get? i = some p ↔
    ∃ e ∈ events, (e.stream = stream ∧ e.index = i) ∧ e.position = p

variable {t : EventTable} {events : List Event}

theorem Coherent.indexes (h : t.Coherent) (hperm : t.toList.Perm events) :
    t.Indexes events := by
  have hget : ∀ p e, t.byPosition.get? p = some e ↔ e ∈ events ∧ e.position = p := by
    intro p e
    rw [← hperm.mem_iff, h.mem_toList_iff]
    constructor
    · intro he
      have hp := h.position_eq he
      exact ⟨hp ▸ he, hp⟩
    · rintro ⟨he, rfl⟩
      exact he
  refine ⟨?_, hget, fun id p => ?_, fun stream i p => ?_⟩
  · exact (hperm.pairwise_iff fun hab hba => hab hba.symm).mp h.distinct
  · rw [h.byId_iff]
    simp only [hget]
    exact exists_congr fun e => and_right_comm.trans and_assoc
  · rw [h.indexOf_iff]
    simp only [hget]
    exact exists_congr fun e => and_right_comm.trans and_assoc

/-- **The position of an identifier** is found in the list. -/
theorem Indexes.positionOf_eq (h : t.Indexes events) (id : Uuid) :
    t.positionOf id = scanFor id events := by
  refine Option.ext fun p => ?_
  rw [positionOf, h.byId_iff, scanFor, Option.map_eq_some_iff]
  constructor
  · rintro ⟨e, he, hid, rfl⟩
    -- the first event of the list with the identifier is the only one
    obtain ⟨x, hx⟩ : ∃ x, events.find? (·.id = id) = some x := by
      rw [← Option.isSome_iff_exists, List.find?_isSome]
      exact ⟨e, he, decide_eq_true hid⟩
    have hxid : x.id = id := by simpa using List.find?_some hx
    have hxp := (h.byId_iff id x.position).mpr ⟨x, List.mem_of_find?_eq_some hx, hxid, rfl⟩
    have hep := (h.byId_iff id e.position).mpr ⟨e, he, hid, rfl⟩
    exact ⟨x, hx, Option.some.inj (hxp.symm.trans hep)⟩
  · rintro ⟨e, he, rfl⟩
    exact ⟨e, List.mem_of_find?_eq_some he, by simpa using List.find?_some he, rfl⟩

/-- **The events of a stream** between two indexes are found in the list. -/
theorem Coherent.ofStream_eq (h : t.Coherent) (hperm : t.toList.Perm events) (stream : Uuid)
    (first last : Nat) :
    t.ofStream stream first last = sortedBy (·.index)
      (events.filter fun e => e.stream = stream ∧ first ≤ e.index ∧ e.index ≤ last) := by
  have hordered := h.pairwise_ofStream stream first last
  refine eq_sortedBy hordered ?_
  have hnodup : (t.ofStream stream first last).Nodup :=
    hordered.imp fun hlt heq => absurd (heq ▸ hlt) (Nat.lt_irrefl _)
  have hevents := (hperm.nodup_iff.mp h.distinct.nodup).filter
    fun e => e.stream = stream ∧ first ≤ e.index ∧ e.index ≤ last
  refine (List.perm_ext_iff_of_nodup hnodup hevents).mpr fun e => ?_
  rw [h.mem_ofStream_iff, hperm.mem_iff, List.mem_filter, decide_eq_true_eq]

/-- **What comes after a position** is found in the list. -/
theorem Coherent.after_eq_sorted (h : t.Coherent) (hperm : t.toList.Perm events)
    (position : Option Nat) (limit : Nat) :
    t.after position limit = (sortedBy (·.position)
      (events.filter fun e => position.all (· < e.position))).take limit := by
  rw [h.after_eq]
  exact congrArg (List.take limit) (eq_sortedBy (h.pairwise_toList.filter _) (hperm.filter _))

end EventTable

/-! ### Reads that nothing runs beside -/

section Reads

variable {s : Store}

/-- **A read of a stream** finds what the table holds of it. Between two indexes in the wrong order
that is nothing, and the store is not asked. -/
theorem Reading.runAlone_ofStream (h : s.events.Coherent) (stream : Uuid) (first last : Nat) :
    Progress.runAlone Reading.next 2 (.ofStream stream first last) s =
      some (.ok (s.events.ofStream stream first last), [], s) := by
  by_cases hlt : last < first
  · have hnil : s.events.ofStream stream first last = [] := by
      refine List.eq_nil_iff_forall_not_mem.mpr fun e he => ?_
      have := h.mem_ofStream_iff.mp he
      omega
    simp only [Progress.runAlone, Reading.next, if_pos hlt, hnil]
  · have hcall : Call.perform (.eventsOfStream stream first last) s =
        (.ok (s.events.ofStream stream first last), s) :=
      congrArg (fun events : List Event => (Except.ok events, s)) (if_neg hlt)
    simp only [Progress.runAlone, Reading.next, if_neg hlt, hcall]

/-- **A read after a position** finds what comes there. A read of no events does not ask. -/
theorem Reading.runAlone_after (s : Store) (position : Option Nat) (limit : Nat) (fuel : Nat) :
    Progress.runAlone Reading.next (fuel + 2) (.after position limit) s =
      some (.ok (s.events.after position limit), [], s) := by
  by_cases hlimit : limit = 0
  · have hnil : s.events.after position limit = [] := by
      rw [hlimit]
      cases position <;> rfl
    simp only [Progress.runAlone, Reading.next, if_pos hlimit, hnil]
  · simp only [Progress.runAlone, Reading.next, Call.perform, if_neg hlimit]

/-- **The search for a position** ends with the one that the table has, or with the beginning of
the log and a warning. -/
theorem Locating.runAlone_asking (s : Store) (event : Uuid) :
    Progress.runAlone Locating.next 3 (.asking event) s =
      some (.ok (s.events.positionOf event),
        if (s.events.positionOf event).isNone then [.unknownEvent] else [], s) := by
  simp only [Progress.runAlone, Locating.next, Call.perform]
  cases s.events.positionOf event <;> rfl

/-- **A read after an event** is a read after its position. -/
theorem Reading.runAlone_afterEvent (s : Store) (event : Uuid) (limit : Nat) :
    Progress.runAlone Reading.next 5 (.afterEvent (some event) limit) s =
      some (.ok (s.events.after (s.events.positionOf event) limit),
        if (s.events.positionOf event).isNone then [.unknownEvent] else [], s) := by
  cases hposition : s.events.positionOf event with
  | none =>
    have hafter := Reading.runAlone_after s none limit 0
    calc Progress.runAlone Reading.next 5 (.afterEvent (some event) limit) s
      _ = Progress.runAlone Reading.next 4 (.locating .unknown limit) s := by
        rw [Progress.runAlone]
        simp only [Reading.afterEvent, Reading.next, Locating.next, Progress.within, Call.perform,
          hposition]
      _ = (Progress.runAlone Reading.next 2 (.after none limit) s).map fun r =>
          (r.1, .unknownEvent :: r.2.1, r.2.2) := rfl
      _ = _ := by
        rw [hafter]
        rfl
  | some p =>
    have hafter := Reading.runAlone_after s (some p) limit 1
    calc Progress.runAlone Reading.next 5 (.afterEvent (some event) limit) s
      _ = Progress.runAlone Reading.next 4 (.locating (.done (.ok (some p))) limit) s := by
        rw [Progress.runAlone]
        simp only [Reading.afterEvent, Reading.next, Locating.next, Progress.within, Call.perform,
          hposition]
      _ = Progress.runAlone Reading.next 3 (.after (some p) limit) s := rfl
      _ = _ := hafter

end Reads

/-! ### What was committed -/

namespace Store

/-- The events that a call stores: those of a commit that is made. -/
def storedBy (s : Store) : Call → List Event
  | .commitEvents sequence events =>
    if (s.commitEvents sequence events).1 = .ok true then events else []
  | _ => []

/-- **The events that calls have stored**, the latest call standing first. -/
def committed : (history : List Call) → List Event
  | [] => []
  | call :: earlier => committed earlier ++ (afterCalls earlier).storedBy call

/-- What a call stores comes to the events, and nothing else does. -/
theorem perm_perform {s : Store} (hs : s.events.Coherent) (call : Call) :
    (call.perform s).2.events.toList.Perm (s.events.toList ++ s.storedBy call) := by
  cases hkeeps : call.keepsLog with
  | true =>
    have hnil : s.storedBy call = [] := by
      cases call with
      | commitEvents sequence events => cases hkeeps
      | _ => rfl
    rw [Call.events_of_keepsLog hkeeps, hnil, List.append_nil]
  | false =>
    cases call with
    | commitEvents sequence events =>
      have hcommits := commits s sequence events
      rw [storedBy]
      split
      · next hr =>
        have hmade := (hcommits.allOrNothing hs).made
        rcases hlast : events.getLast? with _ | last
        · obtain rfl := List.getLast?_eq_none_iff.mp hlast
          rw [List.append_nil]
          exact .refl _
        · exact (hmade last hlast hr).1
      · next hr =>
        rw [List.append_nil]
        exact .of_eq (hcommits.agrees hr).events.toList
    | _ => cases hkeeps

/-- **All that calls have stored is there.** -/
theorem perm_committed (history : List Call) :
    (afterCalls history).events.toList.Perm (committed history) := by
  induction history with
  | nil => exact .refl _
  | cons call earlier ih =>
    have hperm := perm_perform (coherent_afterCalls earlier) call
    exact hperm.trans (ih.append_right _)

/-! ### Reads as scans -/

/-- **A log that is read as a list of events is scanned**, in whatever order the list has them. -/
structure ReadsAsScan (s : Store) (events : List Event) : Prop where
  /-- A stream is read between two indexes, both included. -/
  ofStream : ∀ stream first last,
    Progress.runAlone Reading.next 2 (.ofStream stream first last) s =
      some (.ok (sortedBy (·.index)
        (events.filter fun e => e.stream = stream ∧ first ≤ e.index ∧ e.index ≤ last)), [], s)
  /-- The log is read after a position, or from its beginning. -/
  after : ∀ position limit,
    Progress.runAlone Reading.next 2 (.after position limit) s =
      some (.ok ((sortedBy (·.position)
        (events.filter fun e => position.all (· < e.position))).take limit), [], s)
  /-- The position of an identifier is that of the event that has it; of an identifier that no
  event has there is none, and a warning. -/
  position : ∀ id,
    Progress.runAlone Locating.next 3 (.asking id) s =
      some (.ok (scanFor id events),
        if (scanFor id events).isNone then [.unknownEvent] else [], s)
  /-- The log is read after an event as after its position, and after an identifier that no event
  has from its beginning. -/
  afterEvent : ∀ id limit,
    Progress.runAlone Reading.next 5 (.afterEvent (some id) limit) s =
      some (.ok ((sortedBy (·.position)
        (events.filter fun e => (scanFor id events).all (· < e.position))).take limit),
        if (scanFor id events).isNone then [.unknownEvent] else [], s)

theorem readsAsScan_of_perm {s : Store} {events : List Event} (h : s.events.Coherent)
    (hperm : s.events.toList.Perm events) : s.ReadsAsScan events := by
  have hposition := (h.indexes hperm).positionOf_eq
  refine ⟨fun stream first last => ?_, fun position limit => ?_, fun id => ?_, fun id limit => ?_⟩
  · rw [Reading.runAlone_ofStream h, h.ofStream_eq hperm]
  · rw [Reading.runAlone_after s position limit 0, h.after_eq_sorted hperm]
  · rw [Locating.runAlone_asking, hposition]
  · rw [Reading.runAlone_afterEvent, hposition, h.after_eq_sorted hperm]

/-- **Whatever has been committed, or refused, or undone, is read as it is scanned.** After any
calls, all indexes tell of the events that were committed, and every read finds what a search
through all of them would find. -/
theorem reads_as_scan (history : List Call) :
    (afterCalls history).events.Indexes (committed history) ∧
      (afterCalls history).ReadsAsScan (committed history) :=
  ⟨(coherent_afterCalls history).indexes (perm_committed history),
    readsAsScan_of_perm (coherent_afterCalls history) (perm_committed history)⟩

end Store

end EventJournal
