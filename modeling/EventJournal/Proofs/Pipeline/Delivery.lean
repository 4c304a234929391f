import EventJournal.Proofs.Pipeline.Workshop

/-!
# Deliveries, one element at a time

Whoever drives a delivery by hand (`EventJournal.Delivery`) offers elements, takes up released
ones, and finishes each with the outcome of its handler before the next is taken up. A workshop
does the same in small steps, of which those of several handlings may be mixed
(`EventJournal.Workshop`).

| a move of the delivery | steps of the workshop |
|---|---|
| an element is offered | the same |
| a released element is processed | it is received, begun, settled, announced and completed |

So every history of a delivery is a schedule of a workshop (`EventJournal.Delivery.exists_follows`),
and what is serialized there is serialized here (`EventJournal.Delivery.run_serialized`).
-/

namespace EventJournal

namespace Delivery

/-- **What can be done with a delivery.** -/
inductive Move
  /-- An element is offered. -/
  | offer (e : Element)
  /-- The next released element, if there is one, is handled with the outcome, and finished. -/
  | process (outcome : Outcome)

/-- The next released element, if there is one, and the delivery without it. -/
def take (d : Delivery) : Option Element × Delivery :=
  let (next, released) := d.lanes.released.receive 0
  (next.join, { d with lanes := { d.lanes with released } })

/-- **One move.** -/
def act (d : Delivery) : Move → Delivery
  | .offer e => d.offer e
  | .process outcome =>
    match d.take with
    | (some e, d) => (d.finish e outcome).2
    | (none, d) => d

/-- A history. -/
def run (moves : List Move) (d : Delivery) : Delivery := moves.foldl act d

/-- The element that is handled when a move is made, with the outcome. -/
def handles? (d : Delivery) : Move → Option (Element × Outcome)
  | .offer _ => none
  | .process outcome => d.take.1.map (·, outcome)

/-- The elements that are handled in a history, with their outcomes. -/
def handled : List Move → Delivery → List (Element × Outcome)
  | [], _ => []
  | move :: moves, d => (d.handles? move).toList ++ handled moves (d.act move)

/-- The element that a move offers. -/
def Move.offer? : Move → Option Element
  | .offer e => some e
  | .process _ => none

end Delivery

/-! ### Workshops that do the same -/

namespace Workshop

variable {w : Workshop Uuid Element} {d : Delivery} {offered : List Element}
  {handled : List (Element × Outcome)} {i : Nat} {e : Element} {outcome : Outcome}

/-- The delivery in a workshop. -/
def delivery (w : Workshop Uuid Element) : Delivery :=
  { lanes := w.demultiplexer, processed := w.processed }

/-- The two steps that end the handling of an element are what a delivery does when it finishes
the element. -/
theorem advance_advance_eq_finish (h : w.handlings[i]? = some ⟨e, .settled outcome⟩)
    (o o' : Outcome) :
    ((w.advance Element.key i o).advance Element.key i o').delivery =
      (w.delivery.finish e outcome).2 := by
  have hi : i < w.handlings.length := (List.getElem?_eq_some_iff.mp h).1
  have hannounced : (w.advance Element.key i o).handlings[i]? = some ⟨e, .announced outcome⟩ := by
    rw [advance, h]
    exact List.getElem?_set_self hi
  rw [advance, hannounced, advance, h]
  rfl

/-- The four steps of a handling that has not begun. -/
def handle (i : Nat) (outcome : Outcome) : List (Move Element) :=
  List.replicate 4 (.advance i outcome)

/-- **A workshop that has done what a delivery has**: to it elements have been offered, and in it
elements have been handled, each from beginning to end. -/
structure Follows (d : Delivery) (offered : List Element) (handled : List (Element × Outcome))
    (w : Workshop Uuid Element) : Prop where
  /-- The delivery is in the same state. -/
  delivery_eq : w.delivery = d
  /-- What was offered. -/
  offered_eq : w.offered = offered
  /-- What was handled. -/
  handlings_eq : w.handlings = handled.map fun c => ⟨c.1, .completed c.2⟩
  /-- Nobody has heard of it. -/
  heard_eq : w.heard = []

theorem follows_start : (start : Workshop Uuid Element).Follows .start [] [] :=
  ⟨rfl, rfl, rfl, rfl⟩

/-- The handlings when one more element has come to a stage. -/
def endingAt (handled : List (Element × Outcome)) (e : Element) (stage : Stage) :
    List (Handling Element) :=
  handled.map (fun c => ⟨c.1, .completed c.2⟩) ++ [⟨e, stage⟩]

theorem getElem?_endingAt (handled : List (Element × Outcome)) (e : Element) (stage : Stage) :
    (endingAt handled e stage)[handled.length]? = some ⟨e, stage⟩ := by
  simp [endingAt]

theorem endingAt_set (handled : List (Element × Outcome)) (e : Element) (stage next : Stage) :
    (endingAt handled e stage).set handled.length ⟨e, next⟩ = endingAt handled e next := by
  simp [endingAt]

/-- The two steps with which a handler begins and returns leave the delivery alone. -/
theorem advance_advance_of_waiting (hw : w.handlings = endingAt handled e .waiting)
    (outcome : Outcome) :
    let w' := (w.advance Element.key handled.length outcome).advance Element.key handled.length
      outcome
    w'.handlings = endingAt handled e (.settled outcome) ∧ w'.delivery = w.delivery ∧
      w'.offered = w.offered ∧ w'.heard = w.heard := by
  simp only [advance, hw, getElem?_endingAt, endingAt_set]
  exact ⟨trivial, rfl, trivial, trivial⟩

/-- The two steps that end a handling leave the rest alone. -/
theorem advance_advance_of_settled (hw : w.handlings = endingAt handled e (.settled outcome))
    (o o' : Outcome) :
    let w' := (w.advance Element.key handled.length o).advance Element.key handled.length o'
    w'.handlings = endingAt handled e (.completed outcome) ∧ w'.offered = w.offered ∧
      w'.heard = w.heard := by
  simp only [advance, hw, getElem?_endingAt, endingAt_set]
  exact ⟨trivial, trivial, trivial⟩

/-- **A handling from beginning to end** does what it takes to finish the element. -/
theorem follows_run_handle (hw : w.handlings = endingAt handled e .waiting)
    (hheard : w.heard = []) (outcome : Outcome) :
    (w.run Element.key (handle handled.length outcome)).Follows (w.delivery.finish e outcome).2
      w.offered (handled ++ [(e, outcome)]) := by
  change Follows _ _ _ ((((w.advance Element.key handled.length outcome).advance Element.key
    handled.length outcome).advance Element.key handled.length outcome).advance Element.key
      handled.length outcome)
  obtain ⟨hsettled, hdelivery, hoffered, hunheard⟩ := advance_advance_of_waiting hw outcome
  generalize (w.advance Element.key handled.length outcome).advance Element.key handled.length
    outcome = w' at hsettled hdelivery hoffered hunheard ⊢
  obtain ⟨hcompleted, hsame, hstill⟩ := advance_advance_of_settled hsettled outcome outcome
  have hlast : w'.handlings[handled.length]? = some ⟨e, .settled outcome⟩ :=
    hsettled ▸ getElem?_endingAt handled e _
  rw [← hdelivery, ← hoffered]
  refine ⟨advance_advance_eq_finish hlast outcome outcome, hsame, hcompleted.trans ?_,
    hstill.trans (hunheard.trans hheard)⟩
  simp [endingAt]

/-- The listener of a workshop takes up what a delivery takes. -/
theorem delivery_receive (w : Workshop Uuid Element) :
    w.receive.delivery = w.delivery.take.2 ∧
      w.receive.handlings = w.handlings ++ (w.delivery.take.1.map fun e => ⟨e, .waiting⟩).toList :=
  ⟨rfl, rfl⟩

/-- **Whatever is done with the delivery**, there are steps of the workshop that do it. -/
theorem Follows.act (h : w.Follows d offered handled) (move : Delivery.Move) :
    ∃ steps, (w.run Element.key steps).Follows (d.act move) (offered ++ move.offer?.toList)
      (handled ++ (d.handles? move).toList) := by
  obtain ⟨rfl, rfl, hhandlings, hheard⟩ := h
  cases move with
  | offer e =>
    refine ⟨[.offer e], rfl, rfl, ?_, hheard⟩
    exact hhandlings.trans (by rw [Delivery.handles?, Option.toList_none, List.append_nil])
  | process outcome =>
    obtain ⟨hdelivery, htaken⟩ := w.delivery_receive
    rw [Delivery.act, Delivery.handles?]
    cases htake : w.delivery.take with
    | mk next d =>
      rw [htake] at hdelivery htaken
      cases next with
      | none =>
        refine ⟨[.receive], ?_⟩
        simp only [Delivery.Move.offer?, Option.map_none, Option.toList_none, List.append_nil]
        exact ⟨hdelivery, rfl, htaken.trans (by simpa using hhandlings), hheard⟩
      | some e =>
        have hlast : w.receive.handlings = endingAt handled e .waiting := by
          rw [htaken, hhandlings]
          rfl
        have hfollows := follows_run_handle hlast hheard outcome
        rw [hdelivery] at hfollows
        refine ⟨.receive :: handle handled.length outcome, ?_⟩
        change Follows _ (w.offered ++ []) _ _
        rw [List.append_nil]
        exact hfollows

theorem run_append (steps more : List (Move Element)) :
    w.run Element.key (steps ++ more) = (w.run Element.key steps).run Element.key more :=
  List.foldl_append

/-- **Every history of a delivery is a schedule of a workshop.** -/
theorem Follows.run (h : w.Follows d offered handled) (moves : List Delivery.Move) :
    ∃ steps, (w.run Element.key steps).Follows (d.run moves)
      (offered ++ moves.filterMap Delivery.Move.offer?) (handled ++ d.handled moves) := by
  induction moves generalizing w d offered handled with
  | nil =>
    refine ⟨[], ?_⟩
    rw [List.filterMap_nil, Delivery.handled, List.append_nil, List.append_nil]
    exact h
  | cons move rest ih =>
    obtain ⟨first, hfirst⟩ := h.act move
    obtain ⟨steps, hsteps⟩ := ih hfirst
    refine ⟨first ++ steps, ?_⟩
    rw [run_append]
    rw [List.append_assoc, List.append_assoc] at hsteps
    have hoffered : (move :: rest).filterMap Delivery.Move.offer? =
        move.offer?.toList ++ rest.filterMap Delivery.Move.offer? := by
      simp only [List.filterMap_eq_flatMap_toList, List.flatMap_cons]
    rw [hoffered]
    exact hsteps

end Workshop

/-! ### What is serialized -/

namespace Delivery

/-- What has been handled from beginning to end has been completed. -/
theorem isCompleted_of_handled (handled : List (Element × Outcome)) :
    ∀ x ∈ handled.map (fun c => (⟨c.1, .completed c.2⟩ : Handling Element)),
      x.stage.isCompleted = true := by
  intro x hx
  obtain ⟨c, -, rfl⟩ := List.mem_map.mp hx
  rfl

/-- **A delivery handles the elements of each key in turn.** Whatever elements are offered and
processed, in whatever order and with whatever outcomes: those of a key are handled in the order in
which they were offered, and no more often; those that are raised are those whose handler
succeeded, once each; and if none is released, all that was offered has been handled and all keys
are idle. -/
theorem run_serialized (moves : List Move) {d : Delivery} (hd : start.run moves = d) :
    (∀ key, ((start.handled moves).map Prod.fst).filter (·.key = key) <+:
        (moves.filterMap Move.offer?).filter (·.key = key)) ∧
      (∃ raised, d.processed.waiting? 0 = some raised ∧
        raised.Perm (successes (start.handled moves))) ∧
      (d.lanes.released.waiting? 0 = some [] →
        ((start.handled moves).map Prod.fst).Perm (moves.filterMap Move.offer?) ∧
          d.lanes.lanes.isIdle = true) := by
  obtain ⟨steps, hfollows⟩ := Workshop.follows_start.run moves
  obtain ⟨inbox, outbox, h⟩ := (Workshop.serialized_start Element.key).run steps
  generalize Workshop.start.run Element.key steps = w at hfollows h
  rw [hd, List.nil_append, List.nil_append] at hfollows
  obtain ⟨rfl, hoffered, hhandlings, hheard⟩ := hfollows
  have helements : w.handlings.map Handling.element = (start.handled moves).map Prod.fst := by
    rw [hhandlings, List.map_map]
    rfl
  have hcompleted : ∀ x ∈ w.handlings, x.stage.isCompleted = true := by
    rw [hhandlings]
    exact isCompleted_of_handled _
  have houtcomes : Handling.outcomes w.handlings = start.handled moves := by
    rw [hhandlings, Handling.outcomes, List.filterMap_map]
    exact List.filterMap_some
  rw [← hoffered, ← helements]
  refine ⟨fun key => ?_, ⟨outbox, ?_, ?_⟩, fun hempty => ?_⟩
  · rw [h.offered_eq key, List.filter_append, List.append_assoc]
    exact List.prefix_append _ _
  · exact congrArg (Broadcast.waiting? · 0) h.processed_eq
  · have hraised := h.raised_perm
    rw [hheard, List.nil_append] at hraised
    have hall := Handling.raised_append_unraised w.handlings
    rw [Handling.elementsAt_eq_nil hcompleted Stage.isUnraised_of_isCompleted, List.append_nil,
      houtcomes] at hall
    exact hraised.trans hall
  · have hinbox : inbox = [] := by
      rw [show w.delivery.lanes.released = .ofWaiting inbox from h.released_eq] at hempty
      exact Option.some.inj hempty
    have hnil : w.inFlight = [] := by
      rw [Workshop.inFlight, Workshop.inbox_eq h.released_eq, hinbox, List.append_nil]
      exact Handling.elementsAt_eq_nil hcompleted fun hstage => by rw [hstage]; rfl
    exact (h.at_rest hnil).2

end Delivery

end EventJournal
