import EventJournal.Json.Shape
import EventJournal.Log.Error
import EventJournal.Procedure

/-!
# Snapshots and states

A snapshot spares a reader the events that it accounts for. Its payload may be the JSON
text of a state; `State.ofPayload` reads it back as a state of the form asked for.
-/

namespace EventJournal

/-- The form of a state. -/
inductive StateForm
  /-- Any JSON value. -/
  | value
  /-- A record of the given shape. -/
  | record (shape : Json.Shape)
  /-- A natural number of sixty-four bits. -/
  | word
  /-- A list of texts. -/
  | texts

/-- A state. -/
inductive State
  /-- Any JSON value. -/
  | value (value : Json)
  /-- A record, by its fields. -/
  | record (fields : List (String × Json.Datum))
  /-- A natural number. -/
  | word (value : Nat)
  /-- A list of texts. -/
  | texts (items : List String)

namespace State

/-- The JSON text of a state. -/
def render : State → List Char
  | value v => v.render
  | record fields => '\x7b' :: Json.renderFields fields ++ ['\x7d']
  | word n => Text.decimal n
  | texts items => (Json.array (items.map .string)).render

/-- The payload of a state. -/
def payload (s : State) : List UInt8 := s.render.flatMap Text.Utf8.encodeChar

/-- The state of a form that a payload stands for. -/
def ofPayload (form : StateForm) (payload : List UInt8) : Except Json.ReadError State :=
  let source := Text.Utf8.decode payload
  match form with
  | .value => (Json.ofSource source).map value
  | .record shape =>
    (Json.complete (Json.readFields shape source)).map fun data =>
      record ((shape.map (·.1)).zip data)
  | .word =>
    (Json.complete (Json.readBetween 0 Text.maxWord source)).map fun n => word n.toNat
  | .texts => (Json.complete (Json.readListOf Json.readQuoted source)).map texts

end State

/-! ### Saving and loading -/

/-- The control states of the saving of a snapshot. -/
inductive Saving
  /-- About to store the snapshot. -/
  | storing (snapshot : Snapshot)
  /-- The snapshot is stored, or the store has failed. -/
  | done (result : Except LogError Unit)

/-- What the saving of a snapshot does next. -/
def Saving.next : Saving → Progress Saving (Except LogError Unit)
  | storing snapshot => .asks (.insertSnapshot snapshot) fun
    | .ok _ => done (.ok ())
    | .error e => done (.error (.store e))
  | done result => .finished result

/-- The saving of a state. -/
def Saving.ofState (stream : Uuid) (version : Nat) (state : State) : Saving :=
  storing { stream, version, payload := state.payload }

/-- The control states of the loading of a snapshot. -/
inductive Loading
  /-- About to ask for the snapshot. -/
  | asking (stream : Uuid) (limit : Nat)
  /-- The snapshot has been looked for. -/
  | done (result : Except LogError (Option Snapshot))

/-- What the loading of a snapshot does next. -/
def Loading.next : Loading → Progress Loading (Except LogError (Option Snapshot))
  | asking stream limit => .asks (.findSnapshot stream limit) fun
    | .ok snapshot => done (.ok snapshot)
    | .error e => done (.error (.store e))
  | done result => .finished result

/-- The state that a loaded snapshot stands for, with its version. -/
def Snapshot.toState (form : StateForm) :
    Option Snapshot → Except LogError (Option (Nat × State))
  | none => .ok none
  | some snapshot =>
    match State.ofPayload form snapshot.payload with
    | .ok state => .ok (some (snapshot.version, state))
    | .error e => .error (.serialization e)

end EventJournal
