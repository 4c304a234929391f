import EventJournal.Bench.Step

/-!
# Races

Several steps are taken at once, each from a time of its own on. Time stands still while
any of them can go on; those that can, go on in turn, each until it waits or lets the
others go first. When all wait, time moves to the next of their times.
-/

namespace EventJournal

/-- A step in a race. -/
structure Racer where
  /-- The step. -/
  step : Step
  /-- When it can go on. -/
  due : Nat
  /-- Whether it has waited for its call to be made. -/
  late : Bool
  /-- How far it has been taken. -/
  state : StepState
  /-- Its reply, once there is one. -/
  reply : Option Reply

namespace Racer

/-- A step that begins at a time. -/
def ready (time : Nat) (step : Step) : Racer := ⟨step, time, false, .fresh, none⟩

/-- Whether the step can go on at the time `now`. -/
def canGoOn (now : Nat) (r : Racer) : Bool := r.reply.isNone && r.due ≤ now

/-- Takes the step at the time `now` until it waits, lets others go first, or ends. -/
def goOn (fuel now : Nat) (r : Racer) (w : FaultyStore) : Racer × List Warning × FaultyStore :=
  match Stepper.untilPause r.step.turn fuel r.late r.state w with
  | (.waits ms state, warnings, w) => ({ r with due := now + ms, late := true, state }, warnings, w)
  | (.yields state, warnings, w) => ({ r with due := now, late := false, state }, warnings, w)
  | (.ends reply, warnings, w) => ({ r with reply := some reply }, warnings, w)

/-- Lets each step that can go on at the time `now` go on, in turn. -/
def round (fuel now : Nat) : List Racer → FaultyStore → List Racer × List Warning × FaultyStore
  | [], w => ([], [], w)
  | r :: rest, w =>
    let (r, warnings, w) := if r.canGoOn now then r.goOn fuel now w else (r, [], w)
    let (rest, more, w) := round fuel now rest w
    (r :: rest, warnings ++ more, w)

/-- The time at which the next step can go on, if any has no reply. -/
def nextTime (racers : List Racer) : Option Nat :=
  (racers.filterMap fun r => if r.reply.isNone then some r.due else none).min?

/-- The replies of all steps, if there are any within `rounds` rounds. -/
def finish (fuel : Nat) :
    (rounds : Nat) → List Racer → FaultyStore → Option (List Reply × List Warning × FaultyStore)
  | 0, _, _ => none
  | rounds + 1, racers, w =>
    match nextTime racers with
    | none => some (racers.filterMap (·.reply), [], w)
    | some now =>
      let (racers, warnings, w) := round fuel now racers w
      (finish fuel rounds racers w).map fun (replies, more, w) => (replies, warnings ++ more, w)

end Racer

/-- Takes several steps at once, each from its time on. -/
def Step.takeAll (steps : List (Nat × Step)) (w : FaultyStore) :
    Option (List Reply × List Warning × FaultyStore) :=
  Racer.finish horizon horizon (steps.map fun (time, step) => .ready time step) w

end EventJournal
