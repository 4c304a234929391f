import EventJournal.Pipeline.Run
import EventJournal.Proofs.EventOrder
import EventJournal.Proofs.Pipeline.Chronicle
import EventJournal.Proofs.Pipeline.Frontier
import EventJournal.Proofs.Pipeline.Lanes

/-!
# What a run knows of its elements

A run numbers the events that it fetches, and everything it does after that it does by number:
the frontier moves over numbers, and the event that is noted as progress is looked up by its
number. That this is sound is one statement about a run and a chronicle
(`EventJournal.PipelineRun.Tracks`): there is a *base*, the position after which the run began,
such that the element with the number `n` has the event at the position `base + n`, wherever the
run has it in hand, and every number that counts as finished has been handled.

| the run | and keeps track, since |
|---|---|
| numbers a batch | the batch follows what was fetched before |
| dispatches, completes, counts, gives up | it has nothing in hand that it had not before |
| hears of a success | the success was announced |
| announces a success | the handler has done its work |
| forgets what has been noted | it looks up less |

What one worker does is put together in `EventJournal.PipelineRun.work`, in which nothing is
said of the order in which workers go on.
-/

namespace EventJournal

/-! ### Keeping track -/

/-- A stage that is reached by a success only. -/
def Stage.Succeeded : Stage → Prop
  | waiting | running => False
  | settled outcome | announced outcome | completed outcome => outcome.isSuccess = true

namespace PipelineRun

/-- An element that a run has in hand: it waits on its lane or to be dispatched, or has been
dispatched. -/
def Holds (r : PipelineRun) (e : Element) : Prop :=
  r.lanes.Waits e ∨ e ∈ r.released ∨ ∃ a ∈ r.assigned, a.element = e

/-- **A run of a pipeline that keeps track of its elements.** -/
structure Tracks (name : String) (c : Chronicle) (base : Nat) (r : PipelineRun) : Prop where
  /-- The pipeline. -/
  name_eq : r.config.name = name
  /-- The position of the event that was fetched last. -/
  position_eq : r.position.getD 0 = base + r.fetched
  /-- What comes before the first number has been handled. -/
  handledTo : c.HandledTo base
  /-- The events of the numbers. -/
  known : ∀ n id, r.known.get? n = some id →
    ∃ e, c.stored e ∧ e.id = id ∧ e.position = base + n
  /-- The elements in hand. -/
  held : ∀ e, r.Holds e → c.stored e.event ∧ e.event.position = base + e.number
  /-- The dispatched elements. -/
  assigned : ∀ a ∈ r.assigned, a.stage.Succeeded → c.HandledAt (base + a.element.number)
  /-- The announced successes. -/
  processed : ∀ e ∈ r.processed, c.HandledAt (base + e.number)
  /-- The numbers that count as finished. -/
  finished : ∀ n, 0 < n → r.frontier.Finished n → c.HandledAt (base + n)

variable {name : String} {c c' : Chronicle} {base : Nat} {r r' : PipelineRun}

theorem Tracks.mono (h : r.Tracks name c base) (hc : c.Grows c') : r.Tracks name c' base where
  name_eq := h.name_eq
  position_eq := h.position_eq
  handledTo := h.handledTo.mono hc
  known n id hn := by
    obtain ⟨e, he, hid⟩ := h.known n id hn
    exact ⟨e, hc.stored e he, hid⟩
  held e he := ⟨hc.stored _ (h.held e he).1, (h.held e he).2⟩
  assigned a ha hs := (h.assigned a ha hs).mono hc
  processed e he := (h.processed e he).mono hc
  finished n hpos hn := (h.finished n hpos hn).mono hc

/-- **A run that begins after a position** up to which all has been handled. -/
theorem tracks_start (config : PipelineConfig) {position : Option Nat}
    (h : c.HandledTo (position.getD 0)) :
    (start config position).Tracks config.name c (position.getD 0) where
  name_eq := rfl
  position_eq := rfl
  handledTo := h
  known := nofun
  held e he := by
    rcases he with ⟨key, queue, hget, -⟩ | he | ⟨a, ha, -⟩
    · exact nomatch hget
    · exact absurd he List.not_mem_nil
    · exact absurd ha List.not_mem_nil
  assigned := nofun
  processed := nofun
  finished n hpos hn := by
    rcases hn with hle | hmem
    · exact absurd hpos (Nat.not_lt.mpr hle)
    · exact absurd hmem List.not_mem_nil

/-- **The event that may be noted.** -/
theorem Tracks.reached (h : r.Tracks name c base) {id : Uuid} (hid : r.reached? = some id) :
    c.Reached id := by
  obtain ⟨e, he, heid, hpos⟩ := h.known _ id hid
  refine ⟨e, he, heid, h.handledTo.extend fun n hn hle => ?_⟩
  exact h.finished n hn (Or.inl (by omega))

/-! ### Fetching -/

/-- What an event that is fetched adds to what is in hand: its element is at the end of its lane or
among the released ones. -/
theorem holds_of_acceptOne {keyOf : Event → Uuid} {e : Event} {x : Element}
    (hx : (r.acceptOne keyOf e).Holds x) : r.Holds x ∨ x = ⟨r.fetched + 1, keyOf e, e⟩ := by
  rcases hx with hwaits | hmem | hassigned
  · exact (Lanes.Waits.of_offer hwaits).imp_left Or.inl
  · rcases List.mem_append.mp hmem with hmem | hmem
    · exact Or.inl (Or.inr (Or.inl hmem))
    · exact Or.inr (Lanes.eq_of_offer (Option.mem_toList.mp hmem))
  · exact Or.inl (Or.inr (Or.inr hassigned))

/-- One more event, which follows the one that was fetched last. -/
theorem Tracks.acceptOne (h : r.Tracks name c base) (keyOf : Event → Uuid) {e : Event}
    (he : c.stored e) (hpos : e.position = r.position.getD 0 + 1) :
    (r.acceptOne keyOf e).Tracks name c base := by
  have heq : e.position = base + (r.fetched + 1) := by
    have := h.position_eq
    omega
  refine { h with position_eq := heq, known := fun n id hn => ?_, held := fun x hx => ?_ }
  · change (r.known.insert (r.fetched + 1) e.id).get? n = some id at hn
    rw [SortedMap.get?_insert] at hn
    split at hn
    · next hnum => exact ⟨e, he, Option.some.inj hn, hnum ▸ heq⟩
    · exact h.known n id hn
  · rcases holds_of_acceptOne hx with hheld | rfl
    · exact h.held x hheld
    · exact ⟨he, heq⟩

/-- **A batch that follows what was fetched before.** -/
theorem Tracks.accept (h : r.Tracks name c base) (keyOf : Event → Uuid) {events : List Event}
    (hstored : ∀ e ∈ events, c.stored e) (hfollow : Follow (r.position.getD 0) events) :
    (r.accept keyOf events).Tracks name c base := by
  have hfold : (events.foldl (PipelineRun.acceptOne keyOf) r).Tracks name c base := by
    induction events generalizing r with
    | nil => exact h
    | cons e rest ih =>
      rw [List.forall_mem_cons] at hstored
      obtain ⟨hpos, hrest⟩ := hfollow
      refine ih (h.acceptOne keyOf hstored.1 hpos) hstored.2 ?_
      change Follow e.position rest
      exact hpos ▸ hrest
  exact { hfold with }

/-- A tick that finds no room notes that, and perhaps reports it. -/
theorem hold_eq (now : Nat) (r : PipelineRun) :
    ∃ heldSince stallWarnings, (r.hold now).2 =
      { r with heldSince := heldSince, stats := { r.stats with stallWarnings } } := by
  rw [hold]
  split
  · split
    · split
      · exact ⟨_, _, rfl⟩
      · exact ⟨r.heldSince, r.stats.stallWarnings, rfl⟩
    · exact ⟨_, r.stats.stallWarnings, rfl⟩
  · exact ⟨_, r.stats.stallWarnings, rfl⟩

/-! ### What a run has in hand -/

section Holds

variable {e x : Element} {number : Nat} {outcome : Outcome}

/-- What is dispatched was in hand. -/
theorem holds_of_dispatch? (hd : r.dispatch? = some (e, r')) (hx : r'.Holds x) : r.Holds x := by
  rw [dispatch?] at hd
  split at hd
  · next first rest hreleased =>
    cases hd
    rcases hx with hwaits | hmem | ⟨a, ha, rfl⟩
    · exact Or.inl hwaits
    · exact Or.inr (Or.inl (hreleased ▸ List.mem_cons_of_mem _ hmem))
    · rcases List.mem_append.mp ha with ha | ha
      · exact Or.inr (Or.inr ⟨a, ha, rfl⟩)
      · obtain rfl := List.mem_singleton.mp ha
        exact Or.inr (Or.inl (hreleased ▸ List.mem_cons_self))
  · exact nomatch hd

theorem holds_of_moveTo {stage : Stage} (hx : (r.moveTo number stage).Holds x) : r.Holds x := by
  rcases hx with hwaits | hmem | ⟨a, ha, rfl⟩
  · exact Or.inl hwaits
  · exact Or.inr (Or.inl hmem)
  · obtain ⟨b, hb, rfl⟩ := List.mem_map.mp ha
    refine Or.inr (Or.inr ⟨b, hb, ?_⟩)
    split <;> rfl

theorem holds_of_filter {keep : Assignment → Bool}
    (hx : { r with assigned := r.assigned.filter keep }.Holds x) : r.Holds x := by
  rcases hx with hwaits | hmem | ⟨a, ha, rfl⟩
  · exact Or.inl hwaits
  · exact Or.inr (Or.inl hmem)
  · exact Or.inr (Or.inr ⟨a, (List.mem_filter.mp ha).1, rfl⟩)

/-- What a completion releases has waited on its lane. -/
theorem holds_of_complete (hx : (r.complete e outcome).2.Holds x) : r.Holds x := by
  rcases hx with hwaits | hmem | hassigned
  · exact Or.inl (Lanes.Waits.of_complete hwaits)
  · rcases List.mem_append.mp hmem with hmem | hmem
    · exact Or.inr (Or.inl hmem)
    · exact Or.inl (Lanes.waits_of_complete (Option.mem_toList.mp hmem))
  · exact holds_of_moveTo (Or.inr (Or.inr hassigned))

end Holds

/-! ### Handling -/

theorem Tracks.dispatch (h : r.Tracks name c base) {e : Element} (hd : r.dispatch? = some (e, r')) :
    r'.Tracks name c base := by
  have hheld : ∀ x, r'.Holds x → c.stored x.event ∧ x.event.position = base + x.number :=
    fun x hx => h.held x (holds_of_dispatch? hd hx)
  rw [dispatch?] at hd
  split at hd
  · cases hd
    refine { h with held := hheld, assigned := fun a ha hs => ?_ }
    rcases List.mem_append.mp ha with ha | ha
    · exact h.assigned a ha hs
    · obtain rfl := List.mem_singleton.mp ha
      exact absurd hs id
  · exact nomatch hd

/-- A stage that is reached by a success is reached only when there is one. -/
theorem Tracks.moveTo (h : r.Tracks name c base) {number : Nat} {stage : Stage}
    (hs : stage.Succeeded → c.HandledAt (base + number)) :
    (r.moveTo number stage).Tracks name c base := by
  refine { h with
    held := fun x hx => h.held x (holds_of_moveTo hx), assigned := fun a ha hsucc => ?_ }
  obtain ⟨b, hb, rfl⟩ := List.mem_map.mp ha
  split at hsucc
  · next hnum =>
    simp only [if_pos hnum]
    exact hnum ▸ hs hsucc
  · next hnum =>
    simp only [if_neg hnum]
    exact h.assigned b hb hsucc

/-- Of the dispatched elements some may be given up. -/
theorem Tracks.filter (h : r.Tracks name c base) (keep : Assignment → Bool) :
    { r with assigned := r.assigned.filter keep }.Tracks name c base :=
  { h with
    held := fun x hx => h.held x (holds_of_filter hx)
    assigned := fun a ha => h.assigned a (List.mem_filter.mp ha).1 }

theorem Tracks.announce (h : r.Tracks name c base) {e : Element} {outcome : Outcome}
    (hs : outcome.isSuccess = true → c.HandledAt (base + e.number)) :
    (r.announce e outcome).Tracks name c base := by
  have hmoved : (r.moveTo e.number (.announced outcome)).Tracks name c base := h.moveTo hs
  rw [PipelineRun.announce]
  split
  · next hsucc =>
    refine { hmoved with processed := fun x hx => ?_ }
    rcases List.mem_append.mp hx with hx | hx
    · exact h.processed x hx
    · exact List.mem_singleton.mp hx ▸ hs hsucc
  · exact hmoved

theorem Tracks.complete (h : r.Tracks name c base) {e : Element} {outcome : Outcome}
    (hs : outcome.isSuccess = true → c.HandledAt (base + e.number)) :
    (r.complete e outcome).2.Tracks name c base := by
  have hmoved : (r.moveTo e.number (.completed outcome)).Tracks name c base := h.moveTo hs
  exact { hmoved with held := fun x hx => h.held x (holds_of_complete hx) }

/-! ### Workers -/

/-- The event whose handler returns with success when the worker of an element goes on. -/
def returned? (number : Nat) (outcome : Outcome) (r : PipelineRun) : Option Event :=
  match r.assignment? number with
  | some ⟨e, .running⟩ => if outcome.isSuccess then some e.event else none
  | _ => none

/-- **Workers take nothing in hand** that was not in hand. -/
theorem holds_of_work {number : Nat} {outcome : Outcome} {x : Element}
    (hx : (r.work number outcome).Holds x) : r.Holds x := by
  rw [work] at hx
  split at hx
  · split at hx
    · exact holds_of_moveTo hx
    · exact hx
  · exact holds_of_moveTo hx
  · rw [announce] at hx
    split at hx <;> exact holds_of_moveTo hx
  · exact holds_of_complete hx
  · exact holds_of_filter hx
  · exact hx

theorem assignment?_eq_some {number : Nat} {a : Assignment} (h : r.assignment? number = some a) :
    a ∈ r.assigned ∧ a.element.number = number := by
  refine ⟨List.mem_of_find?_eq_some h, ?_⟩
  simpa using List.find?_some h

theorem Tracks.stored_of_returned? (h : r.Tracks name c base) {number : Nat} {outcome : Outcome}
    {e : Event} (he : r.returned? number outcome = some e) :
    c.stored e ∧ e.position = base + number := by
  rw [returned?] at he
  split at he
  · next x ha =>
    obtain ⟨hmem, rfl⟩ := assignment?_eq_some ha
    split at he
    · cases he
      exact h.held x (Or.inr (Or.inr ⟨_, hmem, rfl⟩))
    · exact nomatch he
  · exact nomatch he

/-- **A run keeps track while its workers go on**, in whatever order, if what their handlers
have done is in the chronicle. -/
theorem Tracks.work (h : r.Tracks name c base) {number : Nat} {outcome : Outcome}
    (hreturned : ∀ e, r.returned? number outcome = some e → c.handled e) :
    (r.work number outcome).Tracks name c base := by
  rw [PipelineRun.work]
  split
  · split
    · exact h.moveTo nofun
    · exact h
  · -- the handler returns, and its success is in the chronicle
    next e ha =>
    refine h.moveTo fun hsucc => ?_
    have he : r.returned? number outcome = some e.event := by
      rw [returned?, ha]
      exact if_pos hsucc
    exact ⟨e.event, hreturned _ he, (h.stored_of_returned? he).2⟩
  · next ha => exact h.announce (h.assigned _ (assignment?_eq_some ha).1)
  · next ha => exact h.complete (h.assigned _ (assignment?_eq_some ha).1)
  · exact { h.filter fun a => a.element.number ≠ number with }
  · exact h

/-- **What workers leave alone**, and dispatches. -/
structure SameProgress (r r' : PipelineRun) : Prop where
  /-- The settings. -/
  config : r'.config = r.config
  /-- The frontier. -/
  frontier : r'.frontier = r.frontier
  /-- The number of the last element. -/
  fetched : r'.fetched = r.fetched
  /-- The position of the event that was fetched last. -/
  position : r'.position = r.position
  /-- The events of the numbers. -/
  known : r'.known = r.known
  /-- The counter of fetched events. -/
  stats_fetched : r'.stats.fetched = r.stats.fetched

theorem SameProgress.refl (r : PipelineRun) : r.SameProgress r := ⟨rfl, rfl, rfl, rfl, rfl, rfl⟩

theorem SameProgress.room (h : r.SameProgress r') : r'.room = r.room := by
  rw [PipelineRun.room, inFlight, h.config, h.fetched, h.frontier, PipelineRun.room, inFlight]

theorem SameProgress.reached? (h : r.SameProgress r') : r'.reached? = r.reached? := by
  rw [PipelineRun.reached?, h.known, h.frontier, PipelineRun.reached?]

theorem dispatch?_sameProgress {e : Element} (hd : r.dispatch? = some (e, r')) :
    r.SameProgress r' := by
  rw [dispatch?] at hd
  split at hd
  · cases hd
    exact ⟨rfl, rfl, rfl, rfl, rfl, rfl⟩
  · cases hd

theorem work_sameProgress (number : Nat) (outcome : Outcome) (r : PipelineRun) :
    r.SameProgress (r.work number outcome) := by
  rw [work]
  split
  · split <;> exact ⟨rfl, rfl, rfl, rfl, rfl, rfl⟩
  · exact ⟨rfl, rfl, rfl, rfl, rfl, rfl⟩
  · rw [announce]
    split <;> exact ⟨rfl, rfl, rfl, rfl, rfl, rfl⟩
  · exact ⟨rfl, rfl, rfl, rfl, rfl, rfl⟩
  · rw [count]
    refine ⟨rfl, rfl, rfl, rfl, rfl, ?_⟩
    dsimp only
    split <;> rfl
  · exact .refl r

/-- No worker goes on if no element is dispatched. -/
theorem work_eq_self (h : r.assigned = []) (number : Nat) (outcome : Outcome) :
    r.work number outcome = r := by
  rw [work, assignment?, h]
  rfl

/-! ### Progress -/

/-- **A frontier that hears of elements** finishes them and nothing else. -/
theorem finished_foldl_finish {elements : List Element} {f : Frontier} {n : Nat} :
    (elements.foldl (fun f e => f.finish e.number) f).Finished n ↔
      f.Finished n ∨ ∃ e ∈ elements, e.number = n := by
  induction elements generalizing f with
  | nil => simp
  | cons e rest ih =>
    rw [List.foldl_cons, ih, Frontier.finished_finish, List.exists_mem_cons_iff, or_assoc,
      @eq_comm _ n]

/-- A frontier that hears of elements does not go back. -/
theorem position_le_foldl_finish (elements : List Element) (f : Frontier) :
    f.position ≤ (elements.foldl (fun f e => f.finish e.number) f).position := by
  induction elements generalizing f with
  | nil => exact le_rfl
  | cons e rest ih => exact (f.position_le_finish e.number).trans (ih (f.finish e.number))

/-- What does not change when the loop hears of a success. -/
theorem absorb?_frame (ha : r.absorb? = some r') :
    r'.config = r.config ∧ r'.stats = r.stats ∧ r'.position = r.position ∧
      r'.assigned = r.assigned ∧ r'.frontier.start = r.frontier.start ∧
      r.frontier.position ≤ r'.frontier.position := by
  rw [absorb?] at ha
  split at ha
  · next e rest _ =>
    cases ha
    exact ⟨rfl, rfl, rfl, rfl, r.frontier.start_finish e.number,
      r.frontier.position_le_finish e.number⟩
  · cases ha

theorem Tracks.absorb (h : r.Tracks name c base) (ha : r.absorb? = some r') :
    r'.Tracks name c base := by
  rw [absorb?] at ha
  split at ha
  · next e rest hprocessed =>
    cases ha
    have hall := h.processed
    rw [hprocessed, List.forall_mem_cons] at hall
    refine { h with processed := hall.2, finished := fun n hpos hn => ?_ }
    rcases Frontier.finished_finish.mp hn with hn | rfl
    · exact h.finished n hpos hn
    · exact hall.1
  · exact nomatch ha

theorem Tracks.absorbAll (h : r.Tracks name c base) : r.absorbAll.Tracks name c base := by
  refine { h with processed := nofun, finished := fun n hpos hn => ?_ }
  rcases finished_foldl_finish.mp hn with hn | ⟨e, he, rfl⟩
  · exact h.finished n hpos hn
  · exact h.processed e he

/-- What has been noted is not looked up any more. -/
theorem Tracks.noted (h : r.Tracks name c base) : r.noted.Tracks name c base :=
  { h with
    known := fun n id hn => h.known n id (SortedMap.get?_above_eq_some_iff.mp hn).1
    finished := fun n hpos hn => h.finished n hpos (Frontier.finished_clear.mp hn) }

end PipelineRun

end EventJournal
