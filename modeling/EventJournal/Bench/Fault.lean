import EventJournal.Procedure

/-!
# Faults

A rehearsal of the library can make its store misbehave: a rule names a call and what is to
come of it, for so many calls after so many others. A call looks through the rules in the
order in which they were made, and the first that has something left for it acts.

A *rival* is another writer who comes first: it does what makes the conditional write at
hand come too late, and the write is answered as not made.
-/

namespace EventJournal

/-- Which call on the store a rule is about. -/
inductive Method
  /-- `Call.commitEvents`. -/
  | commitEvents
  /-- `Call.eventsOfStream`. -/
  | eventsOfStream
  /-- `Call.eventsAfter`. -/
  | eventsAfter
  /-- `Call.positionOf`. -/
  | positionOf
  /-- `Call.findHead`. -/
  | findHead
  /-- `Call.insertHead`. -/
  | insertHead
  /-- `Call.advanceHead`. -/
  | advanceHead
  /-- `Call.insertSnapshot`. -/
  | insertSnapshot
  /-- `Call.findSnapshot`. -/
  | findSnapshot
  /-- `Call.findCounter`. -/
  | findCounter
  /-- `Call.insertCounter`. -/
  | insertCounter
  /-- `Call.advanceCounter`. -/
  | advanceCounter
  /-- `Call.insertCheckpoint`. -/
  | insertCheckpoint
  /-- `Call.latestCheckpoint`. -/
  | latestCheckpoint
  deriving DecidableEq, Repr

namespace Call

/-- Which call this is. -/
def method : Call → Method
  | commitEvents .. => .commitEvents
  | eventsOfStream .. => .eventsOfStream
  | eventsAfter .. => .eventsAfter
  | positionOf .. => .positionOf
  | findHead .. => .findHead
  | insertHead .. => .insertHead
  | advanceHead .. => .advanceHead
  | insertSnapshot .. => .insertSnapshot
  | findSnapshot .. => .findSnapshot
  | findCounter .. => .findCounter
  | insertCounter .. => .insertCounter
  | advanceCounter .. => .advanceCounter
  | insertCheckpoint .. => .insertCheckpoint
  | latestCheckpoint .. => .latestCheckpoint

/-- The stream that a call is about; of a batch, that of its first event. -/
def stream? : Call → Option Uuid
  | commitEvents _ events => events.head?.map (·.stream)
  | eventsOfStream stream _ _ => some stream
  | findHead stream => some stream
  | insertHead head => some head.stream
  | advanceHead stream _ _ => some stream
  | insertSnapshot snapshot => some snapshot.stream
  | findSnapshot stream _ => some stream
  | _ => none

/-- The answer of a conditional write that is not made. -/
def refusal? : (call : Call) → Option call.Answer
  | commitEvents .. => some false
  | insertHead .. => some false
  | advanceHead .. => some false
  | insertCounter .. => some false
  | advanceCounter .. => some false
  | _ => none

end Call

/-! ### Rules -/

/-- What comes of a call. -/
inductive FaultAction
  /-- The call fails and is not made. -/
  | fail (error : StoreError)
  /-- The call is made and fails all the same. -/
  | failAfter (error : StoreError)
  /-- The call is made after a time. -/
  | delay (ms : Nat)
  /-- A conditional write is not made. -/
  | refuse
  /-- A rival comes first. -/
  | rival
  deriving DecidableEq, Repr

/-- What is to come of some calls. -/
structure FaultRule where
  /-- The calls the rule is about. -/
  method : Method
  /-- The stream they are about, if only those of one stream count. -/
  stream : Option Uuid
  /-- How many of them are let through first. -/
  skip : Nat
  /-- How many of them are acted on after these. -/
  times : Nat
  /-- What comes of them. -/
  action : FaultAction
  deriving DecidableEq

namespace FaultRule

/-- Whether the rule is about the call. -/
def concerns (rule : FaultRule) (call : Call) : Bool :=
  rule.method = call.method && (rule.stream.isNone || rule.stream = call.stream?)

/-- What comes of a call by the rules, and the rules after it. -/
def consult (call : Call) : List FaultRule → Option FaultAction × List FaultRule
  | [] => (none, [])
  | rule :: rest =>
    if !rule.concerns call then (consult call rest).map id (rule :: ·)
    else if 0 < rule.skip then
      (consult call rest).map id ({ rule with skip := rule.skip - 1 } :: ·)
    else if 0 < rule.times then
      (some rule.action, { rule with times := rule.times - 1 } :: rest)
    else (consult call rest).map id (rule :: ·)

end FaultRule

/-! ### The store with its faults -/

/-- A store that misbehaves by rules. -/
structure FaultyStore where
  /-- The store. -/
  store : Store := .empty
  /-- The rules, in the order in which they were made. -/
  rules : List FaultRule := []
  /-- How many rivals have committed an event. -/
  rivals : Nat := 0

instance : Inhabited FaultyStore := ⟨{}⟩

/-- What comes of a call at once. -/
inductive Served (call : Call)
  /-- It is answered. -/
  | answered (answer : Except StoreError call.Answer)
  /-- It is made after a time. -/
  | delayed (ms : Nat)

namespace FaultyStore

/-- Makes a call, whatever the rules say. -/
def perform (call : Call) (w : FaultyStore) : Except StoreError call.Answer × FaultyStore :=
  let (answer, store) := call.perform w.store
  (answer, { w with store })

/-- The event of the `n`-th rival that commits one. -/
def rivalEvent (n position : Nat) : Event :=
  let id (mark : Nat) : Uuid := .ofNat (mark * 0x10000000000000000 + n)
  (Draft.ofBytes (id 0xF2) .epoch "Rival" []).place (id 0xF1) 0 position

/-- A rival does what makes the call come too late. -/
def precede (call : Call) (w : FaultyStore) : FaultyStore :=
  match call with
  | .commitEvents sequence (first :: _) =>
    let n := w.rivals + 1
    let (_, w) := w.perform (.commitEvents sequence [rivalEvent n first.position])
    { w with rivals := n }
  | .insertHead head =>
    (w.perform (.insertHead { head with version := 1, kind := "rival" })).2
  | .advanceHead stream expected _ =>
    (w.perform (.advanceHead stream expected (expected + 1))).2
  | .insertCounter name value => (w.perform (.insertCounter name value)).2
  | .advanceCounter name expected value => (w.perform (.advanceCounter name expected value)).2
  | _ => w

/-- What comes of a call by the rules. -/
def serve (call : Call) (w : FaultyStore) : Served call × FaultyStore :=
  let (action, rules) := FaultRule.consult call w.rules
  let w := { w with rules }
  let plain : Served call × FaultyStore := (w.perform call).map .answered id
  match action, call.refusal? with
  | some (.fail e), _ => (.answered (.error e), w)
  | some (.failAfter e), _ => (.answered (.error e), (w.perform call).2)
  | some (.delay ms), _ => (.delayed ms, w)
  | some .refuse, some answer => (.answered (.ok answer), w)
  | some .rival, some answer => (.answered (.ok answer), w.precede call)
  | _, _ => plain

end FaultyStore

end EventJournal
