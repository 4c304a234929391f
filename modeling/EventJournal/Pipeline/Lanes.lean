import EventJournal.SortedMap
import EventJournal.Warning

/-!
# Lanes

Elements of one key are handled one after another. Each busy key has a lane: the queue of
the elements that wait for the one of their key that is being handled. An element whose key
is idle is released at once and makes the key busy; when it is completed the next one in
its lane is released, and the key is idle again if there is none.
-/

namespace EventJournal

/-- The lanes of the busy keys. -/
structure Lanes (κ ε : Type) [LT κ] where
  /-- The elements that wait, by key. A key is busy if it has a lane, even an empty one. -/
  queues : SortedMap κ (List ε)

/-- What comes of a completion. -/
inductive Completion (ε : Type)
  /-- The next element of the key is released. -/
  | released (element : ε)
  /-- The key is idle. -/
  | idle
  /-- The key was idle before. -/
  | stray

namespace Completion

variable {ε : Type}

/-- The element that a completion releases. -/
def element? : Completion ε → Option ε
  | released e => some e
  | _ => none

/-- The warning about a completion. -/
def warning? : Completion ε → Option Warning
  | stray => some .idleKeyCompleted
  | _ => none

end Completion

namespace Lanes

variable {κ ε : Type} [LT κ] [DecidableLT κ]

/-- The lanes when all keys are idle. -/
def empty : Lanes κ ε := ⟨.empty⟩

instance : Inhabited (Lanes κ ε) := ⟨empty⟩

/-- Offers an element of a key, and answers it back if it is released. -/
def offer [KeyOrder κ] (l : Lanes κ ε) (key : κ) (e : ε) : Option ε × Lanes κ ε :=
  match l.queues.get? key with
  | some queue => (none, ⟨l.queues.insert key (queue ++ [e])⟩)
  | none => (some e, ⟨l.queues.insert key []⟩)

/-- Completes the element of a key that was released last. -/
def complete [KeyOrder κ] (l : Lanes κ ε) (key : κ) : Completion ε × Lanes κ ε :=
  match l.queues.get? key with
  | some (e :: rest) => (.released e, ⟨l.queues.insert key rest⟩)
  | some [] => (.idle, ⟨l.queues.erase key⟩)
  | none => (.stray, l)

omit [DecidableLT κ] in
/-- How many keys are busy. -/
def busy (l : Lanes κ ε) : Nat := l.queues.size

omit [DecidableLT κ] in
/-- Whether all keys are idle. -/
def isIdle (l : Lanes κ ε) : Bool := l.queues.entries.isEmpty

/-- How many elements of a key wait. -/
def waiting (l : Lanes κ ε) (key : κ) : Nat := ((l.queues.get? key).getD []).length

end Lanes

end EventJournal
