import EventJournal.Pipeline.Delivery
import EventJournal.Pipeline.Run
import EventJournal.Proofs.Interleaving
import EventJournal.Proofs.Pipeline.Lanes

/-!
# Handling released elements, each key in turn

Elements are offered to a demultiplexer with one listener, who takes released elements up and has
each of them handled (`EventJournal.Workshop`). Any number of handlings go on at once. Each of
them begins, comes to an outcome, raises its element if that is a success, and completes the key
of it; these are steps of their own, and a schedule (`EventJournal.Workshop.Move`) is any list of
steps of any handlings, with offers in between.

Whatever the schedule, the handlings are *serialized* by key
(`EventJournal.Workshop.serialized_run`):

| at every moment | since |
|---|---|
| one element of a key at most is released and not completed | the lanes carry those |
| those of a key are begun in the order of the offers | there is one that may begin |
| none is released twice | what was released and what waits is what was offered |
| the raised ones are those of successful handlings | a handling comes to each stage once |
| each outcome is the one that the handler returned with | a handling keeps it from then on |

The first of these is what the others rest on, and it needs every handling to complete its key,
and once, whatever its outcome. The last is about the schedule and not only about where it leads:
with which outcomes handlers have returned is read off its steps
(`EventJournal.Workshop.returned`).
-/

namespace EventJournal

/-! ### Broadcasts with one listener -/

namespace Broadcast

variable {ε : Type}

/-- A broadcast with one open receiver, at which values wait. -/
def ofWaiting (waiting : List ε) : Broadcast ε := ⟨[⟨waiting, .open⟩], [0]⟩

@[simp] theorem waiting?_ofWaiting (waiting : List ε) :
    (ofWaiting waiting).waiting? 0 = some waiting := rfl

@[simp] theorem raise_ofWaiting (waiting : List ε) (e : ε) :
    ((ofWaiting waiting).raise e).2 = ofWaiting (waiting ++ [e]) := rfl

@[simp] theorem receive_ofWaiting (waiting : List ε) :
    (ofWaiting waiting).receive 0 = (some waiting.head?, ofWaiting waiting.tail) := rfl

theorem announce_ofWaiting (waiting : List ε) (e : Option ε) :
    Demultiplexer.announce (ofWaiting waiting) e = ofWaiting (waiting ++ e.toList) := by
  cases e with
  | none => simp [Demultiplexer.announce]
  | some e => simp [Demultiplexer.announce]

end Broadcast

/-! ### Handlings -/

/-- The elements that were handled with success, of those that were handled. -/
def successes {ε : Type} (handled : List (ε × Outcome)) : List ε :=
  (handled.filter (·.2.isSuccess)).map Prod.fst

theorem successes_cons {ε : Type} (e : ε) (outcome : Outcome) (handled : List (ε × Outcome)) :
    successes ((e, outcome) :: handled) =
      (if outcome.isSuccess then [e] else []) ++ successes handled := by
  cases h : outcome.isSuccess <;> simp [successes, h]

namespace Stage

/-- Whether the handler has yet to begin. -/
def isWaiting : Stage → Bool
  | waiting => true
  | _ => false

/-- Whether the element has been completed on its lane. -/
def isCompleted : Stage → Bool
  | completed _ => true
  | _ => false

/-- Whether a success has been raised. -/
def isRaised : Stage → Bool
  | announced outcome | completed outcome => outcome.isSuccess
  | _ => false

/-- Whether the handler has returned with a success that has yet to be raised. -/
def isUnraised : Stage → Bool
  | settled outcome => outcome.isSuccess
  | _ => false

/-- The outcome of the handler, once it has returned. -/
def outcome? : Stage → Option Outcome
  | waiting | running => none
  | settled outcome | announced outcome | completed outcome => some outcome

theorem isWaiting_of_isCompleted {stage : Stage} (h : stage.isCompleted = true) :
    stage.isWaiting = false := by
  cases stage <;> first | rfl | cases h

theorem isUnraised_of_isCompleted {stage : Stage} (h : stage.isCompleted = true) :
    stage.isUnraised = false := by
  cases stage <;> first | rfl | cases h

end Stage

/-- The handling of a released element. -/
structure Handling (ε : Type) where
  /-- The element. -/
  element : ε
  /-- How far it has come. -/
  stage : Stage

namespace Handling

variable {ε : Type}

/-- The elements whose handling is at a stage of some kind. -/
def elementsAt (p : Stage → Bool) (handlings : List (Handling ε)) : List ε :=
  (handlings.filter fun h => p h.stage).map element

variable {p : Stage → Bool} {handlings : List (Handling ε)} {i : Nat} {e : ε} {stage : Stage}

theorem elementsAt_cons (p : Stage → Bool) (e : ε) (stage : Stage)
    (handlings : List (Handling ε)) :
    elementsAt p (⟨e, stage⟩ :: handlings) =
      (if p stage then [e] else []) ++ elementsAt p handlings := by
  cases hp : p stage <;> simp [elementsAt, hp]

theorem elementsAt_append_singleton :
    elementsAt p (handlings ++ [⟨e, stage⟩]) =
      elementsAt p handlings ++ if p stage then [e] else [] := by
  rw [elementsAt, List.filter_append, List.map_append]
  cases hp : p stage <;> simp [elementsAt, hp]

theorem elementsAt_eq_flatMap (p : Stage → Bool) (handlings : List (Handling ε)) :
    elementsAt p handlings = handlings.flatMap fun h => if p h.stage then [h.element] else [] := by
  induction handlings with
  | nil => rfl
  | cons first rest ih => rw [elementsAt_cons, List.flatMap_cons, ih]

/-- **A handling that comes to another stage** is among those of a kind if the stage is. -/
theorem elementsAt_set (h : handlings[i]? = some ⟨e, stage⟩) (p : Stage → Bool) (next : Stage) :
    ((if p stage then [e] else []) ++ elementsAt p (handlings.set i ⟨e, next⟩)).Perm
      ((if p next then [e] else []) ++ elementsAt p handlings) := by
  rw [elementsAt_eq_flatMap, elementsAt_eq_flatMap]
  exact Interleaving.append_flatMap_set_perm h ⟨e, next⟩
    fun h => if p h.stage then [h.element] else []

/-- A handling that comes to another stage of the same kind. -/
theorem elementsAt_set_of_eq (h : handlings[i]? = some ⟨e, stage⟩) (p : Stage → Bool)
    (next : Stage) (hp : p next = p stage) :
    elementsAt p (handlings.set i ⟨e, next⟩) = elementsAt p handlings := by
  rw [elementsAt_eq_flatMap, elementsAt_eq_flatMap, List.flatMap_def, List.flatMap_def]
  refine congrArg List.flatten (Interleaving.map_set_of_eq h ?_)
  dsimp only
  rw [hp]

theorem map_element_set (h : handlings[i]? = some ⟨e, stage⟩) (next : Stage) :
    (handlings.set i ⟨e, next⟩).map element = handlings.map element :=
  Interleaving.map_set_of_eq h rfl

/-- The element with the outcome of its handler, once it has returned. -/
def outcome? (h : Handling ε) : Option (ε × Outcome) := h.stage.outcome?.map (h.element, ·)

/-- The elements of the handlers that have returned, with their outcomes. -/
def outcomes (handlings : List (Handling ε)) : List (ε × Outcome) := handlings.filterMap outcome?

theorem outcomes_cons (first : Handling ε) (rest : List (Handling ε)) :
    outcomes (first :: rest) = first.outcome?.toList ++ outcomes rest := by
  simp only [outcomes, List.filterMap_eq_flatMap_toList, List.flatMap_cons]

/-- **A handling that comes to another stage** has the outcome of the stage. -/
theorem outcomes_set (h : handlings[i]? = some ⟨e, stage⟩) (next : Stage) :
    ((outcome? ⟨e, stage⟩).toList ++ outcomes (handlings.set i ⟨e, next⟩)).Perm
      ((outcome? ⟨e, next⟩).toList ++ outcomes handlings) := by
  rw [outcomes, outcomes, List.filterMap_eq_flatMap_toList, List.filterMap_eq_flatMap_toList]
  exact Interleaving.append_flatMap_set_perm h ⟨e, next⟩ fun h => (outcome? h).toList

/-- A handling that comes to another stage with the outcome that it has. -/
theorem outcomes_set_of_eq (h : handlings[i]? = some ⟨e, stage⟩) {next : Stage}
    (hnext : next.outcome? = stage.outcome?) :
    (outcomes (handlings.set i ⟨e, next⟩)).Perm (outcomes handlings) := by
  have hset := outcomes_set h next
  rw [outcome?, outcome?, hnext] at hset
  exact (List.perm_append_left_iff _).mp hset

/-- Of the successes, some have been raised and the others have not. -/
theorem raised_append_unraised (handlings : List (Handling ε)) :
    (elementsAt Stage.isRaised handlings ++ elementsAt Stage.isUnraised handlings).Perm
      (successes (outcomes handlings)) := by
  induction handlings with
  | nil => exact .refl _
  | cons first rest ih =>
    obtain ⟨e, stage⟩ := first
    rw [elementsAt_cons, elementsAt_cons]
    cases stage with
    | waiting | running => exact ih
    | settled outcome =>
      change List.Perm _ (successes ((e, outcome) :: outcomes rest))
      rw [successes_cons]
      exact (List.perm_append_comm_assoc _ _ _).trans (ih.append_left _)
    | announced outcome | completed outcome =>
      change List.Perm _ (successes ((e, outcome) :: outcomes rest))
      rw [successes_cons]
      rw [List.append_assoc]
      exact ih.append_left _

section Completed

variable (h : ∀ x ∈ handlings, x.stage.isCompleted = true)

include h

/-- What has been completed is at no stage before. -/
theorem elementsAt_eq_nil (hp : ∀ {stage}, stage.isCompleted = true → p stage = false) :
    elementsAt p handlings = [] := by
  rw [elementsAt, List.map_eq_nil_iff, List.filter_eq_nil_iff]
  intro x hx
  rw [hp (h x hx)]
  exact Bool.false_ne_true

/-- The handlers of all that has been completed have returned. -/
theorem map_fst_outcomes : (outcomes handlings).map Prod.fst = handlings.map element := by
  induction handlings with
  | nil => rfl
  | cons first rest ih =>
    obtain ⟨e, stage⟩ := first
    have hfirst := h _ List.mem_cons_self
    have hrest := ih fun x hx => h x (List.mem_cons_of_mem _ hx)
    cases stage with
    | completed outcome => exact congrArg (e :: ·) hrest
    | _ => cases hfirst

end Completed

end Handling

/-! ### The workshop -/

/-- **Handlings of the elements that a demultiplexer releases.** -/
structure Workshop (κ ε : Type) [LT κ] where
  /-- The demultiplexer, with one listener. -/
  demultiplexer : Demultiplexer κ ε
  /-- Where successes are raised, with one listener. -/
  processed : Broadcast ε
  /-- The elements that were offered. -/
  offered : List ε
  /-- The handlings of the elements that the listener has taken up, in this order. -/
  handlings : List (Handling ε)
  /-- The elements whose handler has begun, in the order of that. -/
  started : List ε
  /-- The elements of which the other listener has heard. -/
  heard : List ε

namespace Workshop

variable {κ ε : Type} [LT κ] [DecidableLT κ]

/-- **What can happen next.** -/
inductive Move (ε : Type)
  /-- An element is offered. -/
  | offer (e : ε)
  /-- The listener takes up the next released element. -/
  | receive
  /-- A handling goes on; if its handler runs, it returns with the outcome. -/
  | advance (handling : Nat) (outcome : Outcome)
  /-- The other listener hears of a success. -/
  | hear

/-- The workshop in which nothing has happened. -/
def start : Workshop κ ε where
  demultiplexer := ⟨.empty, Broadcast.empty.subscribe.2⟩
  processed := Broadcast.empty.subscribe.2
  offered := []
  handlings := []
  started := []
  heard := []

/-- The listener takes up the next released element, if there is one. -/
def receive (w : Workshop κ ε) : Workshop κ ε :=
  let (next, released) := w.demultiplexer.released.receive 0
  { w with
    demultiplexer := { w.demultiplexer with released }
    handlings := w.handlings ++ (next.join.map fun e => ⟨e, .waiting⟩).toList }

/-- The other listener hears of the next success, if there is one. -/
def hear (w : Workshop κ ε) : Workshop κ ε :=
  let (next, processed) := w.processed.receive 0
  { w with processed, heard := w.heard ++ next.join.toList }

variable [KeyOrder κ]

/-- **A handling goes on by one step.** -/
def advance (keyOf : ε → κ) (i : Nat) (outcome : Outcome) (w : Workshop κ ε) : Workshop κ ε :=
  match w.handlings[i]? with
  | some ⟨e, .waiting⟩ =>
    { w with handlings := w.handlings.set i ⟨e, .running⟩, started := w.started ++ [e] }
  | some ⟨e, .running⟩ => { w with handlings := w.handlings.set i ⟨e, .settled outcome⟩ }
  | some ⟨e, .settled outcome⟩ =>
    { w with
      handlings := w.handlings.set i ⟨e, .announced outcome⟩
      processed := if outcome.isSuccess then (w.processed.raise e).2 else w.processed }
  | some ⟨e, .announced outcome⟩ =>
    { w with
      handlings := w.handlings.set i ⟨e, .completed outcome⟩
      demultiplexer := (w.demultiplexer.complete (keyOf e)).2 }
  | some ⟨_, .completed _⟩ | none => w

/-- **One move.** -/
def act (keyOf : ε → κ) (w : Workshop κ ε) : Move ε → Workshop κ ε
  | .offer e =>
    { w with demultiplexer := w.demultiplexer.offer (keyOf e) e, offered := w.offered ++ [e] }
  | .receive => w.receive
  | .advance i outcome => w.advance keyOf i outcome
  | .hear => w.hear

/-- A schedule. -/
def run (keyOf : ε → κ) (moves : List (Move ε)) (w : Workshop κ ε) : Workshop κ ε :=
  moves.foldl (act keyOf) w

/-- The element whose handler returns when a move is made, with the outcome. -/
def settles? (w : Workshop κ ε) : Move ε → Option (ε × Outcome)
  | .advance i outcome =>
    match w.handlings[i]? with
    | some ⟨e, .running⟩ => some (e, outcome)
    | _ => none
  | _ => none

/-- **The elements whose handlers return in a schedule**, with the outcomes, in the order of
that. -/
def returned (keyOf : ε → κ) : List (Move ε) → Workshop κ ε → List (ε × Outcome)
  | [], _ => []
  | move :: moves, w => (w.settles? move).toList ++ returned keyOf moves (w.act keyOf move)

/-! ### What is where -/

section Places

omit [DecidableLT κ] [KeyOrder κ]

/-- The released elements that have not been taken up. -/
def inbox (w : Workshop κ ε) : List ε := (w.demultiplexer.released.waiting? 0).getD []

/-- The elements that were released, in this order. -/
def released (w : Workshop κ ε) : List ε := w.handlings.map Handling.element ++ w.inbox

/-- The elements that are released and not completed. -/
def inFlight (w : Workshop κ ε) : List ε :=
  Handling.elementsAt (fun s => !s.isCompleted) w.handlings ++ w.inbox

/-- The elements that were raised, whether the listener has heard of them or not. -/
def raised (w : Workshop κ ε) : List ε := w.heard ++ (w.processed.waiting? 0).getD []

end Places

/-! ### The invariant -/

variable [DecidableEq κ]

omit [KeyOrder κ] in
/-- **The handlings of each key are serialized**, while elements wait at the two listeners. -/
structure Serialized (keyOf : ε → κ) (w : Workshop κ ε) (inbox outbox : List ε) : Prop where
  /-- One listener to released elements. -/
  released_eq : w.demultiplexer.released = .ofWaiting inbox
  /-- One listener to successes. -/
  processed_eq : w.processed = .ofWaiting outbox
  /-- One element of each busy key is in flight, and none of an idle one. -/
  carries : w.demultiplexer.lanes.Carries keyOf
    (Handling.elementsAt (fun s => !s.isCompleted) w.handlings ++ inbox)
  /-- What was offered has been released or waits. -/
  offered_eq : ∀ key, w.offered.filter (keyOf · = key) =
    (w.handlings.map Handling.element ++ inbox).filter (keyOf · = key) ++
      w.demultiplexer.lanes.queue key
  /-- What was taken up has begun or has yet to. -/
  begun : ∀ key, (w.handlings.map Handling.element).filter (keyOf · = key) =
    w.started.filter (keyOf · = key) ++
      (Handling.elementsAt Stage.isWaiting w.handlings).filter (keyOf · = key)
  /-- The raised elements are those of successful handlings. -/
  raised_perm : (w.heard ++ outbox).Perm (Handling.elementsAt Stage.isRaised w.handlings)

omit [KeyOrder κ] in
theorem serialized_start (keyOf : ε → κ) : (start : Workshop κ ε).Serialized keyOf [] [] where
  released_eq := rfl
  processed_eq := rfl
  carries := Lanes.carries_empty keyOf
  offered_eq _ := rfl
  begun _ := rfl
  raised_perm := .refl _

variable {keyOf : ε → κ} {w : Workshop κ ε} {inbox outbox : List ε}

/-- An offer adds to what was offered, and what it releases to what was released. -/
theorem Serialized.offer (h : w.Serialized keyOf inbox outbox) (e : ε) :
    (w.act keyOf (.offer e)).Serialized keyOf
      (inbox ++ (w.demultiplexer.lanes.offer (keyOf e) e).1.toList) outbox where
  released_eq := by
    change Demultiplexer.announce w.demultiplexer.released _ = _
    rw [h.released_eq, Broadcast.announce_ofWaiting]
    rfl
  processed_eq := h.processed_eq
  carries := by
    have hcarries := h.carries.offer e
    rwa [List.append_assoc] at hcarries
  offered_eq key := by
    have hoffer := Lanes.filter_offer w.demultiplexer.lanes keyOf e key
    change (w.offered ++ [e]).filter (keyOf · = key) = _ ++
      (w.demultiplexer.lanes.offer (keyOf e) e).2.queue key
    rw [← List.append_assoc, List.filter_append, List.filter_append, List.append_assoc, hoffer,
      h.offered_eq key, List.append_assoc]
    rfl
  begun := h.begun
  raised_perm := h.raised_perm

omit [KeyOrder κ] in
/-- The listener takes up what was released: it is in flight before and after. -/
theorem Serialized.receive (h : w.Serialized keyOf inbox outbox) :
    w.receive.Serialized keyOf inbox.tail outbox := by
  have heq : w.receive =
      { w with
        demultiplexer := { w.demultiplexer with released := .ofWaiting inbox.tail }
        handlings := w.handlings ++ (inbox.head?.map fun e => ⟨e, .waiting⟩).toList } := by
    simp [Workshop.receive, h.released_eq]
  rw [heq]
  cases inbox with
  | nil =>
    simp only [List.head?_nil, Option.map_none, Option.toList_none, List.append_nil]
    exact { h with released_eq := rfl }
  | cons e rest =>
    refine { released_eq := rfl, processed_eq := h.processed_eq, carries := ?_,
             offered_eq := fun key => ?_, begun := fun key => ?_, raised_perm := ?_ }
    · simpa [Handling.elementsAt_append_singleton, Stage.isCompleted] using h.carries
    · simpa using h.offered_eq key
    · simp [Handling.elementsAt_append_singleton, Stage.isWaiting, List.filter_append, h.begun key]
    · simpa [Handling.elementsAt_append_singleton, Stage.isRaised] using h.raised_perm

omit [KeyOrder κ] in
/-- The other listener hears of what was raised. -/
theorem Serialized.hear (h : w.Serialized keyOf inbox outbox) :
    w.hear.Serialized keyOf inbox outbox.tail := by
  have heq : w.hear =
      { w with
        processed := .ofWaiting outbox.tail
        heard := w.heard ++ outbox.head?.toList } := by
    simp [Workshop.hear, h.processed_eq]
  have hperm : (w.heard ++ outbox.head?.toList ++ outbox.tail) = w.heard ++ outbox := by
    cases outbox <;> simp
  rw [heq]
  exact { h with processed_eq := rfl, raised_perm := hperm.symm ▸ h.raised_perm }

/-! ### Steps of a handling -/

section Advance

variable {i : Nat} {e : ε} {outcome : Outcome}

omit [KeyOrder κ] in
/-- One element of a key at most has been taken up and has yet to begin. -/
theorem Serialized.length_filter_waiting_le (h : w.Serialized keyOf inbox outbox) (key : κ) :
    ((Handling.elementsAt Stage.isWaiting w.handlings).filter (keyOf · = key)).length ≤ 1 := by
  have hle := h.carries.countP_le key
  rw [← List.countP_eq_length_filter]
  refine (List.Sublist.countP_le ?_).trans hle
  refine List.Sublist.trans ?_ (List.sublist_append_left _ _)
  refine List.Sublist.map _ (List.monotone_filter_right _ fun x hwaiting => ?_)
  cases hs : x.stage <;> simp_all [Stage.isWaiting, Stage.isCompleted]

omit [KeyOrder κ] in
/-- **A handler begins**: there is no other of its key that has yet to. -/
theorem Serialized.begin (h : w.Serialized keyOf inbox outbox)
    (hi : w.handlings[i]? = some ⟨e, .waiting⟩) :
    Serialized keyOf
      { w with handlings := w.handlings.set i ⟨e, .running⟩, started := w.started ++ [e] }
      inbox outbox := by
  refine { h with carries := ?_, offered_eq := ?_, begun := fun key => ?_, raised_perm := ?_ }
  · simpa only [Handling.elementsAt_set_of_eq hi (fun s => !s.isCompleted) .running rfl]
      using h.carries
  · simpa only [Handling.map_element_set hi] using h.offered_eq
  · have hset := (Handling.elementsAt_set hi Stage.isWaiting .running).filter (keyOf · = key)
    have hle := h.length_filter_waiting_le key
    have heq := eq_of_perm_of_length_le_one hset.symm hle
    simp only [Handling.map_element_set hi]
    rw [h.begun key, List.filter_append, List.append_assoc]
    exact congrArg _ (heq.trans (List.filter_append _ _))
  · simpa only [Handling.elementsAt_set_of_eq hi Stage.isRaised .running rfl] using h.raised_perm

omit [KeyOrder κ] in
/-- A handler returns. -/
theorem Serialized.settle (h : w.Serialized keyOf inbox outbox)
    (hi : w.handlings[i]? = some ⟨e, .running⟩) (outcome : Outcome) :
    Serialized keyOf { w with handlings := w.handlings.set i ⟨e, .settled outcome⟩ }
      inbox outbox := by
  refine { h with carries := ?_, offered_eq := ?_, begun := ?_, raised_perm := ?_ }
  · simpa only [Handling.elementsAt_set_of_eq hi (fun s => !s.isCompleted) (.settled outcome) rfl]
      using h.carries
  · simpa only [Handling.map_element_set hi] using h.offered_eq
  · simpa only [Handling.map_element_set hi,
      Handling.elementsAt_set_of_eq hi Stage.isWaiting (.settled outcome) rfl] using h.begun
  · simpa only [Handling.elementsAt_set_of_eq hi Stage.isRaised (.settled outcome) rfl]
      using h.raised_perm

omit [KeyOrder κ] in
/-- **A success is raised**, and nothing else is. -/
theorem Serialized.announce (h : w.Serialized keyOf inbox outbox)
    (hi : w.handlings[i]? = some ⟨e, .settled outcome⟩) :
    Serialized keyOf
      { w with
        handlings := w.handlings.set i ⟨e, .announced outcome⟩
        processed := if outcome.isSuccess then (w.processed.raise e).2 else w.processed }
      inbox (outbox ++ if outcome.isSuccess then [e] else []) := by
  refine { h with processed_eq := ?_, carries := ?_, offered_eq := ?_, begun := ?_,
                  raised_perm := ?_ }
  · cases outcome.isSuccess <;> simp [h.processed_eq]
  · simpa only [Handling.elementsAt_set_of_eq hi (fun s => !s.isCompleted) (.announced outcome) rfl]
      using h.carries
  · simpa only [Handling.map_element_set hi] using h.offered_eq
  · simpa only [Handling.map_element_set hi,
      Handling.elementsAt_set_of_eq hi Stage.isWaiting (.announced outcome) rfl] using h.begun
  · have hset := Handling.elementsAt_set hi Stage.isRaised (.announced outcome)
    simp only [Stage.isRaised, Bool.false_eq_true, if_false, List.nil_append] at hset
    refine List.Perm.trans ?_ hset.symm
    rw [← List.append_assoc]
    exact (h.raised_perm.append_right _).trans List.perm_append_comm

/-- **An element is completed**, which takes it out of flight, and releases the next of its
key. -/
theorem Serialized.complete (h : w.Serialized keyOf inbox outbox)
    (hi : w.handlings[i]? = some ⟨e, .announced outcome⟩) :
    Serialized keyOf
      { w with
        handlings := w.handlings.set i ⟨e, .completed outcome⟩
        demultiplexer := (w.demultiplexer.complete (keyOf e)).2 }
      (inbox ++ (w.demultiplexer.lanes.complete (keyOf e)).1.element?.toList) outbox := by
  have hflight : (Handling.elementsAt (fun s => !s.isCompleted) w.handlings ++ inbox).Perm
      (e :: (Handling.elementsAt (fun s => !s.isCompleted)
        (w.handlings.set i ⟨e, .completed outcome⟩) ++ inbox)) := by
    have hset := Handling.elementsAt_set hi (fun s => !s.isCompleted) (.completed outcome)
    exact hset.symm.append_right inbox
  refine { h with released_eq := ?_, carries := ?_, offered_eq := fun key => ?_, begun := ?_,
                  raised_perm := ?_ }
  · change Demultiplexer.announce w.demultiplexer.released _ = _
    rw [h.released_eq, Broadcast.announce_ofWaiting]
    rfl
  · rw [← List.append_assoc]
    exact (h.carries.perm hflight).complete
  · have hcomplete := h.carries.keyed.filter_complete (keyOf e) key
    simp only [Handling.map_element_set hi]
    change _ = _ ++ (w.demultiplexer.lanes.complete (keyOf e)).2.queue key
    rw [← List.append_assoc, List.filter_append, List.append_assoc, hcomplete]
    exact h.offered_eq key
  · simpa only [Handling.map_element_set hi,
      Handling.elementsAt_set_of_eq hi Stage.isWaiting (.completed outcome) rfl] using h.begun
  · simpa only [Handling.elementsAt_set_of_eq hi Stage.isRaised (.completed outcome) rfl]
      using h.raised_perm

end Advance

/-- **Whatever happens next**, the handlings stay serialized. -/
theorem Serialized.act (h : w.Serialized keyOf inbox outbox) (move : Move ε) :
    ∃ inbox' outbox', (w.act keyOf move).Serialized keyOf inbox' outbox' := by
  cases move with
  | offer e => exact ⟨_, _, h.offer e⟩
  | receive => exact ⟨_, _, h.receive⟩
  | hear => exact ⟨_, _, h.hear⟩
  | advance i outcome =>
    unfold Workshop.act Workshop.advance
    dsimp only
    split
    · next hi => exact ⟨_, _, h.begin hi⟩
    · next hi => exact ⟨_, _, h.settle hi outcome⟩
    · next hi => exact ⟨_, _, h.announce hi⟩
    · next hi => exact ⟨_, _, h.complete hi⟩
    · exact ⟨_, _, h⟩
    · exact ⟨_, _, h⟩

theorem Serialized.run (h : w.Serialized keyOf inbox outbox) (moves : List (Move ε)) :
    ∃ inbox' outbox', (w.run keyOf moves).Serialized keyOf inbox' outbox' := by
  induction moves generalizing w inbox outbox with
  | nil => exact ⟨_, _, h⟩
  | cons move rest ih =>
    obtain ⟨_, _, hnext⟩ := h.act move
    exact ih hnext

/-! ### Outcomes -/

omit [DecidableEq κ] in
/-- **Whatever happens next**, the outcomes stay, and one is added if a handler returns. -/
theorem outcomes_act (keyOf : ε → κ) (move : Move ε) (w : Workshop κ ε) :
    (Handling.outcomes (w.act keyOf move).handlings).Perm
      (Handling.outcomes w.handlings ++ (w.settles? move).toList) := by
  cases move with
  | offer | hear => exact .of_eq (List.append_nil _).symm
  | receive =>
    refine .of_eq ?_
    change Handling.outcomes (w.handlings ++ _) = _
    rw [Handling.outcomes, List.filterMap_append]
    refine congrArg _ (List.filterMap_eq_nil_iff.mpr fun x hx => ?_)
    obtain ⟨e, -, rfl⟩ := Option.map_eq_some_iff.mp (Option.mem_toList.mp hx)
    rfl
  | advance i outcome =>
    simp only [act, advance, settles?]
    cases hi : w.handlings[i]? with
    | none => exact .of_eq (List.append_nil _).symm
    | some x =>
      obtain ⟨e, stage⟩ := x
      cases stage with
      | running =>
        -- this is where the outcome comes from
        exact (Handling.outcomes_set hi _).trans List.perm_append_comm
      | completed => exact .of_eq (List.append_nil _).symm
      | _ =>
        simp only [Option.toList_none, List.append_nil]
        exact Handling.outcomes_set_of_eq hi rfl

omit [DecidableEq κ] in
/-- **The outcomes are those with which handlers have returned.** -/
theorem outcomes_run (keyOf : ε → κ) (moves : List (Move ε)) (w : Workshop κ ε) :
    (Handling.outcomes (w.run keyOf moves).handlings).Perm
      (Handling.outcomes w.handlings ++ w.returned keyOf moves) := by
  induction moves generalizing w with
  | nil => exact .of_eq (List.append_nil _).symm
  | cons move rest ih =>
    have hact := (outcomes_act keyOf move w).append_right (returned keyOf rest (w.act keyOf move))
    rw [List.append_assoc] at hact
    exact (ih (w.act keyOf move)).trans hact

/-! ### What comes of it -/

omit [DecidableLT κ] [KeyOrder κ] [DecidableEq κ] in
theorem inbox_eq (h : w.demultiplexer.released = .ofWaiting inbox) : w.inbox = inbox := by
  rw [Workshop.inbox, h]
  rfl

omit [DecidableLT κ] [KeyOrder κ] [DecidableEq κ] in
/-- If nothing is in flight, all that was taken up has been completed. -/
theorem isCompleted_of_inFlight_eq_nil (h : w.inFlight = []) :
    ∀ x ∈ w.handlings, x.stage.isCompleted = true := by
  intro x hx
  have hnil := (List.append_eq_nil_iff.mp h).1
  rw [Handling.elementsAt, List.map_eq_nil_iff, List.filter_eq_nil_iff] at hnil
  simpa using hnil x hx

omit [KeyOrder κ] in
theorem Serialized.carries_inFlight (h : w.Serialized keyOf inbox outbox) :
    w.demultiplexer.lanes.Carries keyOf w.inFlight := by
  rw [Workshop.inFlight, inbox_eq h.released_eq]
  exact h.carries

/-- **If nothing is in flight**, all that was offered has been taken up and begun, and all keys are
idle. -/
theorem Serialized.at_rest (h : w.Serialized keyOf inbox outbox) (hnil : w.inFlight = []) :
    w.started.Perm w.offered ∧ (w.handlings.map Handling.element).Perm w.offered ∧
      w.demultiplexer.lanes.isIdle = true := by
  have hidle : w.demultiplexer.lanes.isIdle = true := (hnil ▸ h.carries_inFlight).isIdle
  have hempty : inbox = [] := (inbox_eq h.released_eq).symm.trans (List.append_eq_nil_iff.mp hnil).2
  have hhandled : ∀ key, (w.handlings.map Handling.element).filter (keyOf · = key) =
      w.offered.filter (keyOf · = key) := by
    intro key
    rw [h.offered_eq key, hempty, Lanes.queue_eq_nil_of_isIdle hidle, List.append_nil,
      List.append_nil]
  have hstarted : ∀ key, w.started.filter (keyOf · = key) = w.offered.filter (keyOf · = key) := by
    intro key
    have hbegun := h.begun key
    rw [Handling.elementsAt_eq_nil (isCompleted_of_inFlight_eq_nil hnil)
      Stage.isWaiting_of_isCompleted, List.filter_nil, List.append_nil] at hbegun
    rw [← hbegun, hhandled key]
  exact ⟨perm_of_forall_filter fun key => .of_eq (hstarted key),
    perm_of_forall_filter fun key => .of_eq (hhandled key), hidle⟩

/-- **The handlings are serialized by key, and every element is handled once.** Whatever elements
are offered, whatever their keys, and in whatever order the handlings go on with whatever
outcomes: one element of each key at most is in flight; those of a key are released, and begun,
in the order in which they were offered, and no more often; what is raised is each element of a
handling that has come to raise a success, once. A success is what a handler has returned: the
outcomes of the handlings are those of the steps at which handlers returned, and the successes
among these are what has been raised and what has yet to be, once each. If nothing is in flight,
all that was offered has been begun and completed, once each, all handlers have returned, their
successes have been raised, and all keys are idle. -/
theorem serialized_run (keyOf : ε → κ) (moves : List (Move ε)) {w : Workshop κ ε}
    (hw : start.run keyOf moves = w) :
    (∀ key, (w.inFlight.filter (keyOf · = key)).length ≤ 1) ∧
      (∀ key, w.started.filter (keyOf · = key) <+: w.offered.filter (keyOf · = key)) ∧
      (∀ key, w.released.filter (keyOf · = key) <+: w.offered.filter (keyOf · = key)) ∧
      w.released.Subperm w.offered ∧
      w.raised.Perm (Handling.elementsAt Stage.isRaised w.handlings) ∧
      (Handling.outcomes w.handlings).Perm (start.returned keyOf moves) ∧
      (w.raised ++ Handling.elementsAt Stage.isUnraised w.handlings).Perm
        (successes (start.returned keyOf moves)) ∧
      (w.inFlight = [] → w.started.Perm w.offered ∧
        (w.handlings.map Handling.element).Perm w.offered ∧
        (∀ x ∈ w.handlings, x.stage.isCompleted = true) ∧
        w.demultiplexer.lanes.isIdle = true ∧
        ((start.returned keyOf moves).map Prod.fst).Perm w.offered ∧
        w.raised.Perm (successes (start.returned keyOf moves))) := by
  obtain ⟨inbox, outbox, h⟩ := (serialized_start keyOf).run moves
  have houtcomes := outcomes_run keyOf moves start
  rw [hw] at h houtcomes
  have hreleased : ∀ key,
      w.released.filter (keyOf · = key) <+: w.offered.filter (keyOf · = key) := by
    intro key
    rw [Workshop.released, inbox_eq h.released_eq, h.offered_eq key]
    exact List.prefix_append _ _
  have hraised : w.raised.Perm (Handling.elementsAt Stage.isRaised w.handlings) := by
    rw [Workshop.raised, h.processed_eq]
    exact h.raised_perm
  have hsuccesses : (w.raised ++ Handling.elementsAt Stage.isUnraised w.handlings).Perm
      (successes (start.returned keyOf moves)) := by
    refine (hraised.append_right _).trans ((Handling.raised_append_unraised _).trans ?_)
    exact (houtcomes.filter _).map _
  refine ⟨fun key => ?_, fun key => ?_, hreleased,
    subperm_of_forall_filter fun key => (hreleased key).sublist.subperm, hraised, houtcomes,
    hsuccesses, fun hnil => ?_⟩
  · rw [← List.countP_eq_length_filter]
    exact h.carries_inFlight.countP_le key
  · rw [h.offered_eq key, List.filter_append, h.begun key, List.append_assoc, List.append_assoc]
    exact List.prefix_append _ _
  · have hcompleted := isCompleted_of_inFlight_eq_nil hnil
    obtain ⟨hstarted, hhandled, hidle⟩ := h.at_rest hnil
    refine ⟨hstarted, hhandled, hcompleted, hidle, ?_, ?_⟩
    · refine (houtcomes.symm.map Prod.fst).trans ?_
      rwa [Handling.map_fst_outcomes hcompleted]
    · rwa [Handling.elementsAt_eq_nil hcompleted Stage.isUnraised_of_isCompleted,
        List.append_nil] at hsuccesses

/-- A schedule in which three elements of two keys are handled, with one outcome of each kind, and
the first two at once. -/
def mixed : List (Move Nat) :=
  [.offer 1, .offer 3, .offer 2, .receive, .receive, .advance 1 .panicked, .advance 0 .succeeded,
    .advance 1 .panicked, .advance 1 .panicked, .advance 0 .succeeded, .advance 1 .panicked,
    .advance 0 .succeeded, .hear, .advance 0 .succeeded, .receive, .advance 2 .failed,
    .advance 2 .failed, .advance 2 .failed, .advance 2 .failed]

theorem serialized_run_mixed :
    KeyOrder Nat ∧ (start.run (· % 2) mixed).inFlight = [] ∧
      start.returned (· % 2) mixed = [(2, .panicked), (1, .succeeded), (3, .failed)] ∧
      (start.run (· % 2) mixed).raised = [1] ∧
      (start.run (· % 2) mixed).raised.Perm (successes (start.returned (· % 2) mixed)) ∧
      (start.run (· % 2) mixed).heard = [1] ∧
      (start.run (· % 2) mixed).started = [2, 1, 3] ∧
      (start.run (· % 2) mixed).started.Perm (start.run (· % 2) mixed).offered := by
  have hnil : (start.run (· % 2) mixed).inFlight = [] := by decide +kernel
  obtain ⟨-, -, -, -, -, -, -, hdone⟩ := serialized_run (· % 2) mixed rfl
  obtain ⟨hstarted, -, -, -, -, hraised⟩ := hdone hnil
  exact ⟨inferInstance, hnil, by decide +kernel, by decide +kernel, hraised, by decide +kernel,
    by decide +kernel, hstarted⟩

end Workshop

end EventJournal
