import EventJournal.Procedure

/-!
# Sequences

Numbers are handed out from named counters in the store. A claim reads the counter and then
writes on the condition that it still stands where it was read; a claim that comes too late
is made again from the new value.

`Allocation` hands out one number. `Commit` claims the next numbers for a batch of events
and stores the batch in the same conditional write, so that a number can be read only when
its event can.
-/

namespace EventJournal

namespace Sequence

/-- The counter that orders the events. -/
def events : String := "events"

/-- The counter that orders the checkpoints. -/
def checkpoints : String := "pipeline"

/-- The number after `current`; there is none after the greatest of sixty-four bits. -/
def succ? (current : Nat) : Except StoreError Nat :=
  if current < Text.maxWord then .ok (current + 1) else .error (.outOfRange "sequence" current)

end Sequence

/-! ### One number -/

/-- The control states of the claim of one number. -/
inductive Allocation
  /-- About to read the counter. -/
  | reading
  /-- About to make the counter, which did not exist. -/
  | creating
  /-- About to move the counter on from the value that was read. -/
  | claiming (current : Nat)
  /-- Another claim came first. -/
  | retrying
  /-- The number is claimed, or the store has failed. -/
  | done (result : Except StoreError Nat)

/-- What the claim of a number does next. -/
def Allocation.next (name : String) : Allocation → Progress Allocation (Except StoreError Nat)
  | reading => .asks (.findCounter name) fun
    | .ok (some current) =>
      match Sequence.succ? current with
      | .ok _ => claiming current
      | .error e => done (.error e)
    | .ok none => creating
    | .error e => done (.error e)
  | creating => .asks (.insertCounter name 0) fun
    | .ok _ => reading
    | .error e => done (.error e)
  | claiming current => .asks (.advanceCounter name current (current + 1)) fun
    | .ok true => done (.ok (current + 1))
    | .ok false => retrying
    | .error e => done (.error e)
  | retrying => .yields reading
  | done result => .finished result

/-! ### A batch -/

/-- The control states of the commit of a batch. Each knows the first numbers that earlier
attempts have tried for. -/
inductive Commit
  /-- About to read the counter. -/
  | reading (tried : List Nat)
  /-- About to store the batch from the number `first` on. -/
  | storing (tried : List Nat) (first : Nat)
  /-- Another commit came first. -/
  | retrying (tried : List Nat)
  /-- The batch is stored, or the store has failed. -/
  | done (result : Except StoreError (List Nat × List Event))

/-- The first control state. -/
def Commit.start : Commit := reading []

/-- What a commit does next; `build` numbers the batch from the first number on. -/
def Commit.next (name : String) (build : Nat → List Event) :
    Commit → Progress Commit (Except StoreError (List Nat × List Event))
  | reading tried => .asks (.findCounter name) fun
    | .ok value =>
      match Sequence.succ? (value.getD 0) with
      | .ok first => storing tried first
      | .error e => done (.error e)
    | .error e => done (.error e)
  | storing tried first => .asks (.commitEvents name (build first)) fun
    | .ok true => done (.ok (tried ++ [first], build first))
    | .ok false => retrying (tried ++ [first])
    | .error e => done (.error e)
  | retrying tried => .yields (reading tried)
  | done result => .finished result

end EventJournal
