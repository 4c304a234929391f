import EventJournal.Bench.Request

/-!
# Steps

A step of a rehearsal is a request to the log, or something that is done to the store as a
whole or to time. Every step is taken in turns, so that steps can be taken beside each
other.
-/

namespace EventJournal

/-- A step of a rehearsal. -/
inductive Step
  /-- Ask the log for something. -/
  | request (request : Request)
  /-- Count the events and the checkpoints. -/
  | counts
  /-- Empty the store. -/
  | clear
  /-- Let time pass. -/
  | sleep (ms : Nat)
  /-- Make a draft. -/
  | make (draft : Draft)
  /-- Make a rule for the store's faults. -/
  | fault (rule : FaultRule)

/-- How far a step has been taken. -/
inductive StepState
  /-- It has not begun. -/
  | fresh
  /-- Its request is being worked on. -/
  | working (activity : Activity)

namespace Step

/-- One turn of a step. -/
def turn (step : Step) : Stepper StepState Reply := fun late state w =>
  match step, state with
  | request r, .fresh => (.goesOn (.working r.start), [], w)
  | request r, .working activity =>
    match (r.next activity).turn late w with
    | (.goesOn activity, warnings, w) => (.goesOn (.working activity), warnings, w)
    | (.waits ms, warnings, w) => (.waits ms, warnings, w)
    | (.yields activity, warnings, w) => (.yields (.working activity), warnings, w)
    | (.ends reply, warnings, w) => (.ends reply, warnings, w)
  | counts, _ =>
    (.ends (.ok (.counts w.store.events.size w.store.checkpoints.length)), [], w)
  | clear, _ => (.ends (.ok .unit), [], { w with store := .empty })
  | sleep ms, _ => if late then (.ends (.ok .unit), [], w) else (.waits ms, [], w)
  | make draft, _ => (.ends (.ok (.draft draft)), [], w)
  | fault rule, _ => (.ends (.ok .unit), [], { w with rules := w.rules ++ [rule] })

/-- More turns than any step takes. -/
def horizon : Nat := 1000000

/-- Takes a step that nothing else is done beside. -/
def take (step : Step) (w : FaultyStore) : Option (Reply × List Warning × FaultyStore) :=
  Stepper.alone step.turn horizon horizon false .fresh w

end Step

end EventJournal
