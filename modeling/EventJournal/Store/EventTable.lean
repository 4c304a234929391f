import EventJournal.Event
import EventJournal.SortedMap
import EventJournal.Store.Error

/-!
# The table of events

The events by position, with two indexes: from the stream and the index in it to the
position, and from the identifier to the position. No two events share a position, an
identifier, or a place in a stream; `EventTable.insert` refuses an event that would.

`EventTable.toList` is the table without its indexes, and what the reads answer is said in
terms of it.
-/

namespace EventJournal

/-- The stored events with their indexes. -/
structure EventTable where
  /-- The events by position. -/
  byPosition : SortedMap Nat Event
  /-- The positions by stream and index. -/
  byStream : SortedMap Uuid (SortedMap Nat Nat)
  /-- The positions by identifier. -/
  byId : SortedMap Uuid Nat

namespace EventTable

/-- The table of no events. -/
def empty : EventTable := ⟨.empty, .empty, .empty⟩

instance : Inhabited EventTable := ⟨empty⟩

/-- The events in the order of their positions. -/
def toList (t : EventTable) : List Event := t.byPosition.values

/-- The positions of a stream's events, by index. -/
def indexOf (t : EventTable) (stream : Uuid) : SortedMap Nat Nat :=
  (t.byStream.get? stream).getD .empty

/-- The table with one more event. -/
def insert (t : EventTable) (e : Event) : Except StoreError EventTable :=
  if t.byPosition.contains e.position then
    .error (.duplicate "event (global_seq)" (StoreError.number e.position))
  else if t.byId.contains e.id then .error (.duplicate "event" e.id.text)
  else if (t.indexOf e.stream).contains e.index then
    .error (.duplicate "event (stream_seq)" (e.stream.text ++ "@" ++ StoreError.number e.index))
  else .ok
    { byPosition := t.byPosition.insert e.position e
      byStream := t.byStream.insert e.stream ((t.indexOf e.stream).insert e.index e.position)
      byId := t.byId.insert e.id e.position }

/-- The table without an event that was inserted. The index of its stream stays, if only
with nothing in it. -/
def remove (t : EventTable) (e : Event) : EventTable :=
  { byPosition := t.byPosition.erase e.position
    byStream :=
      match t.byStream.get? e.stream with
      | some index => t.byStream.insert e.stream (index.erase e.index)
      | none => t.byStream
    byId := t.byId.erase e.id }

/-- Inserts events one after another, `inserted` being those before them. The first that
cannot be inserted ends this, and those before it are removed again. -/
def insertAfter (inserted : List Event) (t : EventTable) :
    List Event → Option StoreError × EventTable
  | [] => (none, t)
  | e :: rest =>
    match t.insert e with
    | .ok t => insertAfter (inserted ++ [e]) t rest
    | .error err => (some err, inserted.foldl remove t)

/-- The table with more events, and why they could not be inserted if they could not. -/
def insertAll (t : EventTable) (events : List Event) : Option StoreError × EventTable :=
  insertAfter [] t events

/-- The events of a stream whose indexes lie between two bounds, both included. -/
def ofStream (t : EventTable) (stream : Uuid) (first last : Nat) : List Event :=
  ((t.indexOf stream).range first last).filterMap t.byPosition.get?

/-- The first `limit` events that come after a position, or the first `limit` of all. -/
def after (t : EventTable) (position : Option Nat) (limit : Nat) : List Event :=
  match position with
  | some p => (t.byPosition.above p).values.take limit
  | none => t.toList.take limit

/-- The position of the event with an identifier. -/
def positionOf (t : EventTable) (id : Uuid) : Option Nat := t.byId.get? id

/-- The number of events. -/
def size (t : EventTable) : Nat := t.byPosition.size

end EventTable

end EventJournal
