import EventJournal.Instant.Calendar
import EventJournal.Json.Printer
import EventJournal.Text.Utf8
import EventJournal.Uuid

/-!
# Events

An event begins as a *draft*: what happened, without a place. Committing it to a stream
gives it two: the *index* in its stream, counted from zero, and the *position* in the order
of all events, counted from one. An event with its place is never changed again.
-/

namespace EventJournal

/-- What happened, without a place in a stream. -/
structure Draft where
  /-- The identifier of the event. -/
  id : Uuid
  /-- What kind of event it is. -/
  tag : String
  /-- The version of the payload's form. -/
  version : String
  /-- When it happened. -/
  time : Instant
  /-- What else there is to know, in a form that the writer and the reader agree on. -/
  payload : List UInt8
  deriving DecidableEq

/-- An event in its place. -/
structure Event where
  /-- The position in the order of all events, from one. -/
  position : Nat
  /-- The stream. -/
  stream : Uuid
  /-- The index in the stream, from zero. -/
  index : Nat
  /-- The identifier of the event. -/
  id : Uuid
  /-- When it happened. -/
  time : Instant
  /-- What kind of event it is. -/
  tag : String
  /-- The version of the payload's form. -/
  version : String
  /-- What else there is to know. -/
  payload : List UInt8
  deriving DecidableEq

/-- A draft for a stream that its writer has last seen at some version. -/
structure Proposal where
  /-- The stream. -/
  stream : Uuid
  /-- The version of the stream that the writer has seen. -/
  expected : Nat
  /-- What happened. -/
  draft : Draft
  deriving DecidableEq

namespace Draft

/-- The version of payloads whose form was never changed. -/
def firstVersion : String := "1.0"

/-- A draft of the first version. -/
def ofBytes (id : Uuid) (time : Instant) (tag : String) (payload : List UInt8) : Draft :=
  { id, tag, version := firstVersion, time, payload }

/-- A draft of the first version whose payload is the compact text of a value. -/
def ofJson (id : Uuid) (time : Instant) (tag : String) (value : Json) : Draft :=
  ofBytes id time tag (Text.Utf8.encode value.text)

/-- The event that a draft becomes in its place. -/
def place (d : Draft) (stream : Uuid) (index position : Nat) : Event :=
  { position, stream, index, id := d.id, time := d.time, tag := d.tag, version := d.version,
    payload := d.payload }

/-- The events that drafts become in consecutive places. -/
def placeAll (stream : Uuid) (index position : Nat) : List Draft → List Event
  | [] => []
  | d :: rest => d.place stream index position :: placeAll stream (index + 1) (position + 1) rest

@[simp] theorem length_placeAll (stream : Uuid) (index position : Nat) (ds : List Draft) :
    (placeAll stream index position ds).length = ds.length := by
  induction ds generalizing index position with
  | nil => rfl
  | cons d rest ih => simp [placeAll, ih]

end Draft

namespace Event

/-- The draft that became the event. -/
def draft (e : Event) : Draft :=
  { id := e.id, tag := e.tag, version := e.version, time := e.time, payload := e.payload }

@[simp] theorem draft_place (d : Draft) (stream : Uuid) (index position : Nat) :
    (d.place stream index position).draft = d := rfl

end Event

end EventJournal
