/-!
# Broadcasts

A value that is raised goes to every receiver, each with a queue of its own, so that a slow
receiver makes no other miss anything. A receiver may *close*, after which it takes no more
values but still holds those it has, or be *dropped*, and its values with it.

The list of those that a value is sent to (`attached`) is put in order only when it is
used: a receiver that has closed or been dropped stays on it until the next raise or count.
-/

namespace EventJournal

/-- What a receiver still does. -/
inductive Receiver.Status
  /-- It takes values and holds them. -/
  | open
  /-- It holds the values that it took. -/
  | closed
  /-- It is gone. -/
  | dropped
  deriving DecidableEq, Repr

/-- A receiver. -/
structure Receiver (ε : Type) where
  /-- The values that wait to be taken out, the oldest first. -/
  waiting : List ε
  /-- What it still does. -/
  status : Receiver.Status

/-- A source of values with any number of receivers, which are named by the order of their
subscription. -/
structure Broadcast (ε : Type) where
  /-- All receivers there ever were. -/
  receivers : List (Receiver ε)
  /-- The receivers to which values are sent. -/
  attached : List Nat

namespace Broadcast

variable {ε : Type}

/-- The broadcast without receivers. -/
def empty : Broadcast ε := ⟨[], []⟩

instance : Inhabited (Broadcast ε) := ⟨empty⟩

/-- Whether a receiver takes values. -/
def takes (b : Broadcast ε) (i : Nat) : Bool :=
  match b.receivers[i]? with
  | some r => r.status = .open
  | none => false

/-- A new receiver, and the broadcast that it takes values from. -/
def subscribe (b : Broadcast ε) : Nat × Broadcast ε :=
  (b.receivers.length,
    { receivers := b.receivers ++ [⟨[], .open⟩], attached := b.attached ++ [b.receivers.length] })

/-- Sends values to every attached receiver that takes them, and answers how many do. -/
def send (b : Broadcast ε) (values : List ε) : Nat × Broadcast ε :=
  let takers := b.attached.filter b.takes
  (takers.length,
    { receivers := b.receivers.mapIdx fun i r =>
        if takers.contains i then { r with waiting := r.waiting ++ values } else r
      attached := takers })

/-- Raises a value, and answers how many receivers have taken it. -/
def raise (b : Broadcast ε) (value : ε) : Nat × Broadcast ε := b.send [value]

/-- Raises several values, and answers how many receivers have taken the last. -/
def raiseAll (b : Broadcast ε) : (values : List ε) → Option Nat × Broadcast ε
  | [] => (none, b)
  | values => (b.send values).map some id

@[simp] theorem takes_send (b : Broadcast ε) (values : List ε) (i : Nat) :
    (b.send values).2.takes i = b.takes i := by
  simp only [send, takes, List.getElem?_mapIdx]
  cases h : b.receivers[i]? with
  | none => rfl
  | some r =>
    simp only [Option.map_some]
    split <;> rfl

/-- Values sent after others are as if they had been sent with them. -/
theorem send_send (b : Broadcast ε) (values more : List ε) :
    (b.send values).2.send more = b.send (values ++ more) := by
  have h : (b.send values).2.takes = b.takes := funext fun i => takes_send b values i
  have hf : ((b.send values).2.attached.filter (b.send values).2.takes)
      = b.attached.filter b.takes := by
    rw [h]
    simp [send]
  rw [send, hf]
  simp only [send, List.mapIdx_mapIdx, Prod.mk.injEq, true_and, Broadcast.mk.injEq, and_true]
  congr 1
  funext i r
  simp only [Function.comp]
  split <;> simp

/-- How many receivers take values. -/
def count (b : Broadcast ε) : Nat × Broadcast ε :=
  let takers := b.attached.filter b.takes
  (takers.length, { b with attached := takers })

/-- The broadcast with the status of a receiver changed, unless it is gone. -/
def withdraw (b : Broadcast ε) (i : Nat) (status : Receiver.Status) : Bool × Broadcast ε :=
  match b.receivers[i]? with
  | some r =>
    if r.status = .dropped then (false, b)
    else
      let waiting := if status = .dropped then [] else r.waiting
      (true, { b with receivers := b.receivers.set i ⟨waiting, status⟩ })
  | none => (false, b)

/-- Makes a receiver take no more values. -/
def close (b : Broadcast ε) (i : Nat) : Bool × Broadcast ε := b.withdraw i .closed

/-- Drops a receiver. -/
def drop (b : Broadcast ε) (i : Nat) : Bool × Broadcast ε := b.withdraw i .dropped

/-- The values that wait at a receiver, `none` if it is gone. -/
def waiting? (b : Broadcast ε) (i : Nat) : Option (List ε) :=
  match b.receivers[i]? with
  | some r => if r.status = .dropped then none else some r.waiting
  | none => none

/-- Takes the oldest value out of a receiver; the inner `none` says that there is none, the
outer one that the receiver is gone. -/
def receive (b : Broadcast ε) (i : Nat) : Option (Option ε) × Broadcast ε :=
  match b.receivers[i]? with
  | some r =>
    if r.status = .dropped then (none, b)
    else (some r.waiting.head?,
      { b with receivers := b.receivers.set i { r with waiting := r.waiting.tail } })
  | none => (none, b)

/-- Takes all values out of a receiver, `none` if it is gone. -/
def drain (b : Broadcast ε) (i : Nat) : Option (List ε) × Broadcast ε :=
  match b.receivers[i]? with
  | some r =>
    if r.status = .dropped then (none, b)
    else (some r.waiting, { b with receivers := b.receivers.set i { r with waiting := [] } })
  | none => (none, b)

end Broadcast

end EventJournal
