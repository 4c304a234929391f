import EventJournal.Bench.Fault

/-!
# Turns

One step of a procedure on a store with faults. A call that is delayed makes the procedure
wait; when the time has passed, its next turn makes the call without asking the rules
again, which is what `late` says.
-/

namespace EventJournal

/-- What comes of one step of a procedure. -/
inductive Turn (σ ρ : Type)
  /-- It goes on from another control state. -/
  | goesOn (state : σ)
  /-- It waits before its call is made. -/
  | waits (ms : Nat)
  /-- It lets others go first. -/
  | yields (state : σ)
  /-- It has finished. -/
  | ends (result : ρ)

/-- One step of a procedure, with what it reports and the store after it. -/
def Progress.turn {σ ρ : Type} (progress : Progress σ ρ) (late : Bool) (w : FaultyStore) :
    Turn σ ρ × List Warning × FaultyStore :=
  match progress with
  | .finished result => (.ends result, [], w)
  | .asks call resume =>
    if late then
      let (answer, w) := w.perform call
      (.goesOn (resume answer), [], w)
    else
      match w.serve call with
      | (.answered answer, w) => (.goesOn (resume answer), [], w)
      | (.delayed ms, w) => (.waits ms, [], w)
  | .warns warning rest => (.goesOn rest, [warning], w)
  | .yields rest => (.yields rest, [], w)
  | .moves rest => (.goesOn rest, [], w)

/-- What takes the steps of some work on a store with faults. -/
abbrev Stepper (σ ρ : Type) : Type :=
  (late : Bool) → σ → FaultyStore → Turn σ ρ × List Warning × FaultyStore

/-- What stops some work from going on by itself. -/
inductive Pause (σ ρ : Type)
  /-- It waits; its next step is a late one. -/
  | waits (ms : Nat) (state : σ)
  /-- It lets others go first. -/
  | yields (state : σ)
  /-- It has finished. -/
  | ends (result : ρ)

namespace Stepper

variable {σ ρ : Type}

/-- Takes steps until something stops the work, with what it reports and the store after
it. A wait for no time is none. -/
def untilPause (step : Stepper σ ρ) :
    (fuel : Nat) → (late : Bool) → σ → FaultyStore → Pause σ ρ × List Warning × FaultyStore
  | 0, _, state, w => (.yields state, [], w)
  | fuel + 1, late, state, w =>
    let goOn (late : Bool) (state : σ) (warnings : List Warning) (w : FaultyStore) :=
      let (pause, more, w) := untilPause step fuel late state w
      (pause, warnings ++ more, w)
    match step late state w with
    | (.goesOn state, warnings, w) => goOn false state warnings w
    | (.waits 0, warnings, w) => goOn true state warnings w
    | (.waits ms, warnings, w) => (.waits ms state, warnings, w)
    | (.yields state, warnings, w) => (.yields state, warnings, w)
    | (.ends result, warnings, w) => (.ends result, warnings, w)

/-- The result of work that nothing else is done beside, if it ends within `fuel` pauses;
waiting takes nothing but time. -/
def alone (step : Stepper σ ρ) (steps : Nat) :
    (fuel : Nat) → (late : Bool) → σ → FaultyStore → Option (ρ × List Warning × FaultyStore)
  | 0, _, _, _ => none
  | fuel + 1, late, state, w =>
    match step.untilPause steps late state w with
    | (.ends result, warnings, w) => some (result, warnings, w)
    | (.waits _ state, warnings, w) =>
      (alone step steps fuel true state w).map fun (result, more, w) =>
        (result, warnings ++ more, w)
    | (.yields state, warnings, w) =>
      (alone step steps fuel false state w).map fun (result, more, w) =>
        (result, warnings ++ more, w)

end Stepper

end EventJournal
