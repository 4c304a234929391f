import EventJournal.Log.Error
import EventJournal.Log.Sequence
import EventJournal.Text.Blank

/-!
# Appending

A writer appends a batch to a stream and says which version of the stream it has seen. The
append first claims the versions of the batch on the head of the stream, which fails if
another writer has moved the head; then it commits the batch at the next positions of the
log.

A batch for several streams is a batch for each of them, in the order in which the streams
first occur; that one of them fails does not concern the others.
-/

namespace EventJournal

/-- A batch for one stream. -/
structure Batch where
  /-- The stream. -/
  stream : Uuid
  /-- The version of the stream that the writer has seen. -/
  expected : Nat
  /-- What happened, in order. -/
  drafts : List Draft
  /-- What kind of stream it is to be if it is new. -/
  kind : String
  deriving DecidableEq

namespace Batch

/-- The kind of streams whose writers name none. -/
def defaultKind : String := "stream"

/-- The version of the stream after the batch. -/
def version (b : Batch) : Nat := b.expected + b.drafts.length

/-- The events of the batch when its first position is `first`. -/
def placed (b : Batch) (first : Nat) : List Event :=
  Draft.placeAll b.stream b.expected first b.drafts

/-- Why the batch is refused, if it is. An empty batch is refused only for its stream. -/
def refusal? (b : Batch) : Option Refusal :=
  if b.stream.isNil then some .nilStream
  else
    match b.drafts.find? fun d => Text.blank d.tag with
    | some d => some (.blankTag d.id)
    | none =>
      if b.drafts ≠ [] ∧ Text.maxWord < b.version then some .versionOverflow else none

end Batch

/-! ### One stream -/

/-- The control states of an append. -/
inductive Append
  /-- About to read the head. -/
  | findingHead
  /-- About to make the head, there being none. -/
  | creatingHead
  /-- About to move the head. -/
  | movingHead
  /-- The head could not be moved. -/
  | conflicting
  /-- The versions are claimed, the batch is being committed. -/
  | committing (commit : Commit)
  /-- The append has succeeded or failed. -/
  | done (result : Except LogError (List Event))

namespace Append

/-- The first control state of an append. -/
def start (b : Batch) : Append :=
  match b.refusal? with
  | some refusal => done (.error (.invalid refusal))
  | none => if b.drafts.isEmpty then done (.ok []) else findingHead

/-- What an append does next. -/
def next (b : Batch) : Append → Progress Append (Except LogError (List Event))
  | findingHead => .asks (.findHead b.stream) fun
    | .ok none => if b.expected = 0 then creatingHead else conflicting
    | .ok (some head) => if head.version = b.expected then movingHead else conflicting
    | .error e => done (.error (.store e))
  | creatingHead =>
    .asks (.insertHead { stream := b.stream, version := b.version, kind := b.kind }) fun
    | .ok true => committing .start
    | .ok false => conflicting
    | .error e => done (.error (.store e))
  | movingHead => .asks (.advanceHead b.stream b.expected b.version) fun
    | .ok true => committing .start
    | .ok false => conflicting
    | .error e => done (.error (.store e))
  | conflicting => .warns .appendConflict (done (.error (.concurrency b.stream b.version)))
  | committing commit => (commit.next Sequence.events b.placed).within committing fun
    | .ok (_, events) => .finished (.ok events)
    | .error e => .finished (.error (.store e))
  | done result => .finished result

end Append

/-! ### Several streams -/

/-- Proposals put to the batches of their streams: a proposal for a stream that has a batch
goes to its end, and any other begins a batch at the version that it names. -/
def addProposal (batches : List Batch) (p : Proposal) : List Batch :=
  if batches.any fun b => b.stream = p.stream then
    batches.map fun b =>
      if b.stream = p.stream then { b with drafts := b.drafts ++ [p.draft] } else b
  else
    batches ++ [⟨p.stream, p.expected, [p.draft], Batch.defaultKind⟩]

/-- The batches of a list of proposals, one a stream, in the order in which the streams
first occur. -/
def batchesOf (proposals : List Proposal) : List Batch :=
  proposals.foldl addProposal []

/-- The result of a batch, with its stream. -/
abbrev StreamResult : Type := Uuid × Except LogError (List Event)

/-- The control states of an append to several streams. -/
inductive AppendEach
  /-- A batch is being appended; `results` are those of the batches before it. -/
  | appending (results : List StreamResult) (batch : Batch) (append : Append)
    (rest : List Batch)
  /-- All batches have a result. -/
  | done (results : List StreamResult)

namespace AppendEach

/-- Goes on to the next batch, if there is one. -/
def proceed (results : List StreamResult) : List Batch → AppendEach
  | [] => done results
  | b :: rest => appending results b (.start b) rest

/-- The first control state. -/
def start (proposals : List Proposal) : AppendEach := proceed [] (batchesOf proposals)

/-- What an append to several streams does next. -/
def next : AppendEach → Progress AppendEach (List StreamResult)
  | appending results batch append rest =>
    (append.next batch).within (fun append => appending results batch append rest) fun result =>
      .moves (proceed (results ++ [(batch.stream, result)]) rest)
  | done results => .finished results

end AppendEach

end EventJournal
