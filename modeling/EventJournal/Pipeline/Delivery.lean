import EventJournal.Pipeline.Broadcast
import EventJournal.Pipeline.Element
import EventJournal.Pipeline.Lanes

/-!
# Delivery

Elements come in on lanes, are handled when they are released, and are announced as
processed if their handler did its work. Whatever the outcome, the element is completed on
its lane, so that a handler that fails does not hold up its key.
-/

namespace EventJournal

/-- The lanes with those who hear of released elements. -/
structure Demultiplexer (κ ε : Type) [LT κ] where
  /-- The lanes. -/
  lanes : Lanes κ ε
  /-- Who hears of released elements. -/
  released : Broadcast ε

namespace Demultiplexer

variable {κ ε : Type} [LT κ] [DecidableLT κ]

/-- A demultiplexer of idle lanes that nobody listens to. -/
def empty : Demultiplexer κ ε := ⟨.empty, .empty⟩

omit [DecidableLT κ] in
/-- Announces an element, if there is one. -/
def announce (released : Broadcast ε) (e : Option ε) : Broadcast ε :=
  match e with
  | some e => (released.raise e).2
  | none => released

/-- Offers an element of a key. -/
def offer [KeyOrder κ] (d : Demultiplexer κ ε) (key : κ) (e : ε) : Demultiplexer κ ε :=
  let (next, lanes) := d.lanes.offer key e
  ⟨lanes, announce d.released next⟩

/-- Completes the element of a key that was released last. -/
def complete [KeyOrder κ] (d : Demultiplexer κ ε) (key : κ) :
    List Warning × Demultiplexer κ ε :=
  let (completion, lanes) := d.lanes.complete key
  (completion.warning?.toList, ⟨lanes, announce d.released completion.element?⟩)

end Demultiplexer

/-- The handling of released elements. -/
structure Delivery where
  /-- Where elements wait for their key. -/
  lanes : Demultiplexer Uuid Element
  /-- Who hears of processed elements. -/
  processed : Broadcast Element

namespace Delivery

/-- A delivery with one listener to released elements and one to processed ones. -/
def start : Delivery :=
  { lanes := { lanes := .empty, released := Broadcast.empty.subscribe.2 }
    processed := Broadcast.empty.subscribe.2 }

/-- Offers an element. -/
def offer (d : Delivery) (e : Element) : Delivery :=
  { d with lanes := d.lanes.offer e.key e }

/-- Finishes an element with the outcome of its handler: a success is announced, and the
element is completed on its lane. -/
def finish (d : Delivery) (e : Element) (outcome : Outcome) : List Warning × Delivery :=
  let processed := if outcome.isSuccess then (d.processed.raise e).2 else d.processed
  let (warnings, lanes) := d.lanes.complete e.key
  (outcome.warning?.toList ++ warnings, { lanes, processed })

end Delivery

end EventJournal
