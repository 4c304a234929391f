import EventJournal.Log.Append

/-!
# Seeds

Events to rehearse with: their tags are chosen, and their payload is an empty JSON object.
Streams can be seeded one after another or interleaved, so that consecutive positions belong
to different streams.
-/

namespace EventJournal

namespace Seeding

/-- The seed of an event. -/
def draft (id : Uuid) (time : Instant) (tag : String) : Draft :=
  .ofJson id time tag (.object [])

/-- The tag of the events of a round. -/
def roundTag (round : Nat) : String := "Step" ++ StoreError.number round

/-- The rounds and their streams, in the order in which they are seeded. -/
def places (streams : List Uuid) (rounds : Nat) : List (Nat × Uuid) :=
  (List.range rounds).flatMap fun round => streams.map fun stream => (round, stream)

/-- Batches of one event that seed new streams in turn, round after round. The `n`-th event
has the identifier `idOf n`. -/
def interleaved (idOf : Nat → Uuid) (time : Instant) (streams : List Uuid) (rounds : Nat) :
    List Batch :=
  (places streams rounds).mapIdx fun n (round, stream) =>
    { stream
      expected := round
      drafts := [draft (idOf n) time (roundTag round)]
      kind := Batch.defaultKind }

end Seeding

end EventJournal
