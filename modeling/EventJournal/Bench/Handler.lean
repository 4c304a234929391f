import EventJournal.Json.Parser
import EventJournal.Pipeline.Element
import EventJournal.Pipeline.Routing

/-!
# Handlers for rehearsals

Handlers that do nothing but remember what they were given, fail where they are told to,
and take their time. A handler is called twice for an element: it begins, and when the time
it asked for has passed, it finishes.

A recording handler notices when it begins an element while it is at another of the same
key. It knows the keys it is at as a set, which an element enters when it begins and leaves
when it finishes.
-/

namespace EventJournal

/-- What a registered function does. -/
inductive Behaviour
  /-- It succeeds. -/
  | succeed
  /-- It fails. -/
  | fail
  /-- It breaks down. -/
  | panic
  /-- It reads the payload as JSON. -/
  | decode
  deriving DecidableEq, Repr

namespace Behaviour

/-- The name of a behaviour. -/
def name : Behaviour → String
  | succeed => "ok"
  | fail => "fail"
  | panic => "panic"
  | decode => "decode"

/-- The outcome of an event. -/
def outcome (b : Behaviour) (event : Event) : Outcome :=
  match b with
  | succeed => .succeeded
  | fail => .failed
  | panic => .panicked
  | decode =>
    match Json.parseBytes event.payload with
    | .ok _ => .succeeded
    | .error _ => .failed

/-- What the function says if it does not succeed. -/
def complaint (b : Behaviour) (event : Event) : String :=
  match b with
  | panic => "handler blew up"
  | decode => "undecodable payload"
  | _ => event.tag ++ " is not supported"

/-- How the call of a function is remembered. -/
def call (b : Behaviour) (event : Event) : String := event.tag ++ ":" ++ b.name

end Behaviour

/-- What a handler does. -/
inductive HandlerKind
  /-- It succeeds after a time. -/
  | recording (delay : Nat)
  /-- It fails on some events. -/
  | failing (events : List Uuid)
  /-- It takes its time for each event, and fails or breaks down on some. An event is
  failed only so many times. -/
  | scripted (fails panics : List Uuid) (failTimes : Option Nat) (delays : List (Uuid × Nat))
  /-- It calls the function registered for the event's tag. -/
  | routed (table : Routing Behaviour)

/-- A handler and what it remembers. -/
structure Handler where
  /-- What it does. -/
  kind : HandlerKind
  /-- The elements it has handled, in the order in which it finished them. -/
  seen : List Element := []
  /-- The events it has begun, in order. -/
  begun : List Uuid := []
  /-- The keys it is at, each once. -/
  active : List Uuid := []
  /-- How often it began an element while it was at another of the key. -/
  overlaps : Nat := 0
  /-- How many elements it is at. -/
  running : Nat := 0
  /-- The most elements it was ever at. -/
  peak : Nat := 0
  /-- The functions it has called. -/
  calls : List String := []

namespace Handler

/-- The handler enters a key. -/
def enter (h : Handler) (key : Uuid) : Handler :=
  if h.active.contains key then { h with overlaps := h.overlaps + 1 }
  else { h with active := key :: h.active }

/-- The handler has handled an element and leaves its key. -/
def leave (h : Handler) (e : Element) : Handler :=
  { h with seen := h.seen ++ [e], active := h.active.filter fun k => k ≠ e.key }

/-- The handler begins an element, and answers how long it takes. -/
def begin (h : Handler) (e : Element) : Nat × Handler :=
  let h := { h with
    begun := h.begun ++ [e.event.id]
    running := h.running + 1
    peak := max h.peak (h.running + 1) }
  match h.kind with
  | .recording delay => (delay, h.enter e.key)
  | .failing events => (0, if events.contains e.event.id then h else h.enter e.key)
  | .scripted _ _ _ delays => ((delays.lookup e.event.id).getD 0, h)
  | .routed _ => (0, h)

/-- The handler finishes an element. -/
def finish (h : Handler) (e : Element) : Outcome × Handler :=
  let h := { h with running := h.running - 1 }
  match h.kind with
  | .recording _ => (.succeeded, h.leave e)
  | .failing events => if events.contains e.event.id then (.failed, h) else (.succeeded, h.leave e)
  | .scripted fails panics failTimes _ =>
    if panics.contains e.event.id then (.panicked, h)
    else if fails.contains e.event.id
        && failTimes.all fun times => h.begun.count e.event.id ≤ times then (.failed, h)
    else (.succeeded, { h with seen := h.seen ++ [e] })
  | .routed table =>
    (table.handle Behaviour.outcome e.event,
      match table.handlerOf e.event.tag with
      | some b => { h with seen := h.seen ++ [e], calls := h.calls ++ [b.call e.event] }
      | none => h)

/-- How much the handler has done: what it has handled, or, if it may fail, what it has
begun. -/
def handled (h : Handler) : Nat :=
  match h.kind with
  | .failing _ => h.begun.length
  | _ => h.seen.length

end Handler

end EventJournal
