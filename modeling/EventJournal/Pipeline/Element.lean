import EventJournal.Event
import EventJournal.Warning

/-!
# Elements

What goes through a pipeline: an event, the key on which it is serialized, and its number
in the order in which the pipeline has fetched events. A handler makes something of the
event, fails, or breaks down; the pipeline goes on in each case.
-/

namespace EventJournal

/-- An event on its way through a pipeline. -/
structure Element where
  /-- The number in the order of fetching, from one. -/
  number : Nat
  /-- The key: of the elements of one key only one is handled at a time. -/
  key : Uuid
  /-- The event. -/
  event : Event
  deriving DecidableEq

/-- What comes of the handling of an element. -/
inductive Outcome
  /-- The handler has done its work. -/
  | succeeded
  /-- The handler has failed. -/
  | failed
  /-- The handler has broken down. -/
  | panicked
  deriving DecidableEq, Repr

namespace Outcome

/-- Whether the handler has done its work. -/
def isSuccess : Outcome → Bool
  | succeeded => true
  | _ => false

/-- The warning about an outcome. -/
def warning? : Outcome → Option Warning
  | succeeded => none
  | failed => some .handlerFailed
  | panicked => some .handlerPanicked

end Outcome

end EventJournal
