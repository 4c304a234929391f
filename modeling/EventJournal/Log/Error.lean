import EventJournal.Json.Token
import EventJournal.Store.Error
import EventJournal.Uuid

/-!
# Failures of the log

Why an append, a read or a snapshot failed.
-/

namespace EventJournal

/-- Why a batch is refused before the store is asked. -/
inductive Refusal
  /-- The stream is the one that names nothing. -/
  | nilStream
  /-- The type tag of an event is blank. -/
  | blankTag (event : Uuid)
  /-- The stream would have more events than sixty-four bits can count. -/
  | versionOverflow
  /-- A reason in the caller's words. -/
  | stated (text : String)
  deriving DecidableEq

/-- The wording of a refusal. -/
def Refusal.message : Refusal → String
  | nilStream => "stream id must not be nil"
  | blankTag event => "event " ++ event.text ++ " has an empty type tag"
  | versionOverflow => "stream version overflow"
  | stated text => text

/-- A failure of the log. -/
inductive LogError
  /-- Another writer has moved the stream on, so that it could not be moved to `version`. -/
  | concurrency (stream : Uuid) (version : Nat)
  /-- The batch is refused. -/
  | invalid (refusal : Refusal)
  /-- The store failed. -/
  | store (error : StoreError)
  /-- A stored state is not of the form that was asked for. -/
  | serialization (error : Json.ReadError)
  deriving DecidableEq

namespace LogError

/-- The wording of a failure. What is wrong with a stored state has no fixed wording. -/
def message : LogError → String
  | concurrency stream version =>
    "Concurrency conflict on stream " ++ stream.text ++ ": could not advance to version "
      ++ StoreError.number version
  | invalid refusal => "Invalid event: " ++ refusal.message
  | store error => "Store error: " ++ error.message
  | serialization _ => "Serialization error"

/-- Whether another attempt with the stream's new version may succeed. -/
def isConcurrency : LogError → Bool
  | concurrency .. => true
  | _ => false

end LogError

end EventJournal
