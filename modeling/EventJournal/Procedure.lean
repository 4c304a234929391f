import EventJournal.Store.Basic
import EventJournal.Warning

/-!
# Procedures

An operation on the log takes several calls on the store, and other operations may come
between any two of them. A *procedure* is an operation taken apart at these places: a type
of control states, and for each state what the operation does next
(`EventJournal.Progress`). The loops of an operation are cycles of its control states, so a
procedure need not say how often it goes round.

The same procedure is run alone (`Progress.runAlone`), beside others on a clock, and in any
order beside others when its laws are proved.
-/

namespace EventJournal

/-- What a procedure with control states `σ` and results `ρ` does next. -/
inductive Progress (σ ρ : Type)
  /-- It has finished. -/
  | finished (result : ρ)
  /-- It makes one call on the store and goes on with the answer. -/
  | asks (call : Call) (resume : Except StoreError call.Answer → σ)
  /-- It reports something and goes on. -/
  | warns (warning : Warning) (rest : σ)
  /-- It lets others go first and goes on. -/
  | yields (rest : σ)
  /-- It goes on by itself. -/
  | moves (rest : σ)

namespace Progress

variable {σ τ ρ π : Type}

/-- The progress of a procedure as part of a larger one: its control states are control
states of the larger one, which goes on from its result. -/
def within (embed : σ → τ) (proceed : ρ → Progress τ π) : Progress σ ρ → Progress τ π
  | finished result => proceed result
  | asks call resume => asks call fun answer => embed (resume answer)
  | warns warning rest => warns warning (embed rest)
  | yields rest => yields (embed rest)
  | moves rest => moves (embed rest)

/-- One step of a procedure at the control state `state` on a store. A call may fail, and
then is not made. A procedure that has finished stays where it is. -/
def step (fault : Option StoreError) (state : σ) (s : Store) : Progress σ ρ → σ × Store
  | finished _ => (state, s)
  | asks call resume =>
    match fault with
    | some e => (resume (.error e), s)
    | none => (resume (call.perform s).1, (call.perform s).2)
  | warns _ rest | yields rest | moves rest => (rest, s)

/-- The result of a procedure that has finished. -/
def result? : Progress σ ρ → Option ρ
  | finished result => some result
  | _ => none

/-- The result of a procedure that nothing else runs beside, with its warnings and the
store it leaves, if it finishes within `fuel` steps. -/
def runAlone (next : σ → Progress σ ρ) :
    (fuel : Nat) → σ → Store → Option (ρ × List Warning × Store)
  | 0, _, _ => none
  | fuel + 1, state, store =>
    match next state with
    | finished result => some (result, [], store)
    | asks call resume =>
      let (answer, store) := call.perform store
      runAlone next fuel (resume answer) store
    | warns warning rest =>
      (runAlone next fuel rest store).map fun (result, warnings, store) =>
        (result, warning :: warnings, store)
    | yields rest | moves rest => runAlone next fuel rest store

end Progress

end EventJournal
