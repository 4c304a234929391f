import EventJournal.Pipeline.Element
import EventJournal.SortedMap

/-!
# Routing

A table that gives each type tag the handler of its events. An event whose tag has none is
passed over, and counts as processed.
-/

namespace EventJournal

/-- Handlers by type tag. -/
structure Routing (η : Type) where
  /-- The handlers. -/
  handlers : SortedMap String η

namespace Routing

variable {η : Type}

/-- The table without handlers. -/
def empty : Routing η := ⟨.empty⟩

/-- Gives a tag its handler, in the place of the one it has, about which there is a
warning. -/
def register (r : Routing η) (tag : String) (handler : η) : List Warning × Routing η :=
  (if r.handlers.contains tag then [.handlerReplaced] else [],
    ⟨r.handlers.insert tag handler⟩)

/-- Gives each tag of a list its handler, in turn, with the warnings about those in whose
place others came. -/
def registerAll (entries : List (String × η)) (r : Routing η) : List Warning × Routing η :=
  entries.foldl (fun (warnings, r) (tag, handler) =>
    let (more, r) := r.register tag handler
    (warnings ++ more, r)) ([], r)

/-- The handler of a tag. -/
def handlerOf (r : Routing η) (tag : String) : Option η := r.handlers.get? tag

/-- How many tags have a handler. -/
def size (r : Routing η) : Nat := r.handlers.size

/-- The outcome of an event, by the handler of its tag. -/
def handle (r : Routing η) (run : η → Event → Outcome) (event : Event) : Outcome :=
  match r.handlerOf event.tag with
  | some handler => run handler event
  | none => .succeeded

end Routing

end EventJournal
