import EventJournal.Pipeline.Loop
import EventJournal.Proofs.Pipeline.Calls
import EventJournal.Proofs.Pipeline.Run

/-!
# The loop beside its workers and the writers

A loop is *sound* (`EventJournal.PipelineLoop.Sound`) if its run keeps track of its elements
and what it is at fits: the search for its first position, the batch that it fetches, and the
row that it writes are what the chronicle allows. Everything that can happen to a loop keeps it
sound, in any order.

| what happens | to | theorem |
|---|---|---|
| a step of a procedure | the loop and the store | `EventJournal.PipelineLoop.Sound.proceed` |
| a tick, a message, the stop, the time-out | the loop | `EventJournal.PipelineLoop.Sound.react` |
| a step of a worker | the run | `EventJournal.PipelineLoop.Sound.work` |
| an append, a success of a handler | the chronicle | `EventJournal.PipelineLoop.Sound.mono` |
-/

namespace EventJournal

/-! ### What can happen to a loop -/

namespace PipelineLoop

/-- After a move the loop is at what it comes to, or where it was. -/
theorem react_eq (move : LoopMove) (l : PipelineLoop) :
    l.react move = ((l.turn? move).map (·.loop)).getD l := by
  cases move <;> cases hs : l.state <;> simp [react, turn?, hs, Function.comp_def]

/-- **What a loop can do without the store**, and while it is at what. -/
inductive Reacts (l : PipelineLoop) : LoopMove → PipelineLoop → Prop
  /-- It finds no room for a batch, and notes since when. -/
  | hold (hs : l.state = .serving) (now : Nat) (heldSince : Option (Nat × Nat))
    (stallWarnings : Nat) :
    Reacts l (.tick now)
      { l with run := { l.run with heldSince, stats := { l.run.stats with stallWarnings } } }
  /-- It begins to fetch a batch for which there is room. -/
  | fetch (hs : l.state = .serving) (now : Nat) {limit : Nat} (hlimit : l.run.limit? = some limit) :
    Reacts l (.tick now) ⟨l.run.release, .fetching (.after l.run.position limit)⟩
  /-- It dispatches an element. -/
  | dispatch (hs : l.state = .serving ∨ l.state = .draining) {e : Element} {run : PipelineRun}
    (hrun : l.run.dispatch? = some (e, run)) : Reacts l .dispatch { l with run }
  /-- It hears of an element, and there is no progress to be noted. -/
  | absorb (hs : l.state = .serving ∨ l.state = .draining) {run : PipelineRun}
    (hrun : l.run.absorb? = some run) (hearly : l.state = .serving → run.isDue = false) :
    Reacts l .absorb { l with run }
  /-- It hears of an element, and begins to note its progress. -/
  | note (hs : l.state = .serving) {run : PipelineRun} (hrun : l.run.absorb? = some run)
    (hdue : run.isDue = true) : Reacts l .absorb ({ l with run }.beginMarking false).loop
  /-- It is stopped. -/
  | stop (hs : l.state = .serving) : Reacts l .stop (l.goTo .draining)
  /-- It waits no longer, for all its elements have been handled. -/
  | cease (hs : l.state = .draining) (hsettled : l.run.isSettled = true) :
    Reacts l .cease (l.goTo .closing)
  /-- It waits no longer, though elements have not been handled. -/
  | timeOut (hs : l.state = .draining) (spared : Assignment → Bool) :
    Reacts l (.timeOut spared) (l.timeOut spared).loop
  /-- It is closed. -/
  | close (hs : l.state = .closing) : Reacts l .close l.close.loop
  /-- It can do nothing of the kind. -/
  | idle (move : LoopMove) : Reacts l move l

section Reacts

variable {l : PipelineLoop}

/-- The clock ticks. -/
theorem reacts_tick (hs : l.state = .serving) (now : Nat) :
    l.Reacts (.tick now) (l.tick now).loop := by
  rw [tick]
  split
  · obtain ⟨heldSince, stallWarnings, heq⟩ := PipelineRun.hold_eq now l.run
    simp only [heq]
    exact .hold hs now heldSince stallWarnings
  · next limit hlimit => exact .fetch hs now hlimit

theorem reacts_dispatch (hs : l.state = .serving ∨ l.state = .draining) :
    l.Reacts .dispatch ((l.dispatch?.map (·.2)).getD l) := by
  rw [dispatch?]
  cases hrun : l.run.dispatch? with
  | none => exact .idle _
  | some p => exact .dispatch hs hrun

theorem reacts_absorb (hs : l.state = .serving ∨ l.state = .draining) :
    l.Reacts .absorb ((l.absorb?.map (·.loop)).getD l) := by
  rw [absorb?]
  cases hrun : l.run.absorb? with
  | none => exact .idle _
  | some run =>
    simp only [Option.map_some, Option.getD_some]
    split
    · next hserving =>
      split
      · next hdue => exact .note hserving hrun hdue
      · next hdue => exact .absorb hs hrun fun _ => Bool.eq_false_iff.mpr hdue
    · next hserving => exact .absorb hs hrun fun hl => absurd hl hserving

theorem reacts_cease (hs : l.state = .draining) : l.Reacts .cease (l.drained?.getD l) := by
  rw [drained?]
  split
  · next hsettled => exact .cease hs hsettled
  · exact .idle _

/-- **Whatever a loop is to do**, it does one of these. -/
theorem reacts_react (move : LoopMove) (l : PipelineLoop) : l.Reacts move (l.react move) := by
  unfold react
  split
  · next hs => exact reacts_tick hs _
  · next hs => exact reacts_dispatch (Or.inl hs)
  · next hs => exact reacts_dispatch (Or.inr hs)
  · next hs => exact reacts_absorb (Or.inl hs)
  · next hs => exact reacts_absorb (Or.inr hs)
  · next hs => exact .stop hs
  · next hs => exact reacts_cease hs
  · next hs => exact .timeOut hs _
  · next hs => exact .close hs
  · exact .idle _

end Reacts

/-- A procedure within that of the loop, which goes on from its result. -/
theorem proceed_eq {σ ρ : Type} {keyOf : Event → Uuid} {l : PipelineLoop} {p : Progress σ ρ}
    {embed : σ → PipelineLoop} {turn : ρ → LoopTurn}
    (hp : l.procedure? keyOf = some (p.within embed fun r => .finished (turn r)))
    (fault : Option StoreError) (state : σ) (s : Store) :
    l.proceed keyOf fault s =
      match p.result? with
      | some r => ((turn r).loop, s)
      | none => (embed (p.step fault state s).1, (p.step fault state s).2) := by
  rw [proceed, hp]
  cases hr : p.result? with
  | some r =>
    rw [Progress.within_of_result? hr]
    rfl
  | none =>
    rw [← Progress.step_within fault hr embed (fun r => .finished (turn r)) state l s]
    cases p with
    | finished r => exact nomatch hr
    | _ => rfl

section Proceed

variable {l : PipelineLoop} (keyOf : Event → Uuid) (fault : Option StoreError) (s : Store)

theorem proceed_resuming {search : Resuming} (hs : l.state = .resuming search) :
    l.proceed keyOf fault s =
      match (search.next l.run.config.name).result? with
      | some result => ((l.resumed result).loop, s)
      | none =>
        (l.goTo (.resuming ((search.next l.run.config.name).step fault search s).1),
          ((search.next l.run.config.name).step fault search s).2) := by
  have hp : l.procedure? keyOf = some ((search.next l.run.config.name).within
      (fun search => l.goTo (.resuming search)) fun r => .finished (l.resumed r)) := by
    rw [procedure?, hs]
  rw [proceed_eq hp fault search s]
  cases (search.next l.run.config.name).result? <;> rfl

theorem proceed_fetching {reading : Reading} (hs : l.state = .fetching reading) :
    l.proceed keyOf fault s =
      match reading.next.result? with
      | some result => ((l.fetched keyOf result).loop, s)
      | none =>
        (l.goTo (.fetching (reading.next.step fault reading s).1),
          (reading.next.step fault reading s).2) := by
  have hp : l.procedure? keyOf = some (reading.next.within
      (fun reading => l.goTo (.fetching reading)) fun r => .finished (l.fetched keyOf r)) := by
    rw [procedure?, hs]
  rw [proceed_eq hp fault reading s]
  cases reading.next.result? <;> rfl

theorem proceed_marking {b : Bookmark} {marking : Marking} {isLast : Bool}
    (hs : l.state = .marking b marking isLast) :
    l.proceed keyOf fault s =
      match (marking.next b).result? with
      | some result => ((l.marked isLast result).loop, s)
      | none =>
        (l.goTo (.marking b ((marking.next b).step fault marking s).1 isLast),
          ((marking.next b).step fault marking s).2) := by
  have hp : l.procedure? keyOf = some ((marking.next b).within
      (fun marking => l.goTo (.marking b marking isLast))
      fun r => .finished (l.marked isLast r)) := by
    rw [procedure?, hs]
  rw [proceed_eq hp fault marking s]
  cases (marking.next b).result? <;> rfl

/-- A loop that is at no procedure takes no step of one. -/
theorem proceed_eq_self (h : l.procedure? keyOf = none) : l.proceed keyOf fault s = (l, s) := by
  rw [PipelineLoop.proceed, h]

end Proceed

end PipelineLoop

/-! ### Sound loops -/

/-- **What a loop is at fits the chronicle** when its run has come to a position. -/
def LoopState.Sound (name : String) (c : Chronicle) (position : Option Nat) : LoopState → Prop
  | resuming search => search.Sound c
  | fetching reading => reading.Fetches c position
  | marking b _ _ => b.pipeline = name ∧ c.Reached b.event
  | _ => True

/-- A loop that is at nothing that concerns the store. -/
theorem LoopState.sound_of_idle {name : String} {c : Chronicle} {state : LoopState}
    (h : state = .serving ∨ state = .draining ∨ state = .closing) (position : Option Nat) :
    state.Sound name c position := by
  rcases h with rfl | rfl | rfl <;> trivial

namespace PipelineLoop

/-- **A sound loop of a pipeline.** -/
structure Sound (name : String) (c : Chronicle) (l : PipelineLoop) : Prop where
  /-- The run keeps track of its elements. -/
  tracks : ∃ base, l.run.Tracks name c base
  /-- What the loop is at fits. -/
  state : l.state.Sound name c l.run.position

variable {name : String} {c c' : Chronicle} {l : PipelineLoop}

theorem sound_start (config : PipelineConfig) (c : Chronicle) :
    (start config).Sound config.name c :=
  ⟨⟨0, @PipelineRun.tracks_start c config none c.handledTo_zero⟩, trivial⟩

theorem Sound.mono (h : l.Sound name c) (hc : c.Grows c') : l.Sound name c' := by
  obtain ⟨⟨base, htracks⟩, hstate⟩ := h
  refine ⟨⟨base, htracks.mono hc⟩, ?_⟩
  cases hs : l.state with
  | resuming search =>
    rw [hs] at hstate
    exact Resuming.Sound.mono hstate hc
  | fetching reading =>
    rw [hs] at hstate
    exact Reading.Fetches.mono hstate hc
  | marking b m isLast =>
    rw [hs] at hstate
    exact ⟨hstate.1, hstate.2.mono hc⟩
  | _ => trivial

theorem Sound.goTo (h : l.Sound name c) {state : LoopState}
    (hstate : ∀ position, state.Sound name c position) : (l.goTo state).Sound name c :=
  ⟨h.tracks, hstate _⟩

theorem Sound.finish (h : l.Sound name c) : l.finish.Sound name c := h.goTo fun _ => trivial

/-- A loop that has noted its progress, or could not, serves again or ends. -/
theorem Sound.goOn (h : l.Sound name c) (isLast : Bool) :
    (if isLast then l.finish else l.goTo .serving).Sound name c := by
  split
  · exact h.finish
  · exact h.goTo fun _ => trivial

/-- **The row that is to be written** names an event that may be noted. -/
theorem Sound.beginMarking (h : l.Sound name c) (isLast : Bool) :
    (l.beginMarking isLast).loop.Sound name c := by
  obtain ⟨base, htracks⟩ := h.tracks
  rw [PipelineLoop.beginMarking]
  split
  · next event hevent => exact h.goTo fun _ => ⟨htracks.name_eq, htracks.reached hevent⟩
  · exact h.goOn isLast

/-! ### Without the store -/

/-- A loop that is at nothing that concerns the store goes on with its run. -/
theorem Sound.withRun {base : Nat} {run : PipelineRun} (htracks : run.Tracks name c base)
    (hs : l.state = .serving ∨ l.state = .draining ∨ l.state = .closing) :
    { l with run }.Sound name c :=
  ⟨⟨base, htracks⟩, LoopState.sound_of_idle hs _⟩

theorem Sound.close (h : l.Sound name c) (hs : l.state = .closing) : l.close.loop.Sound name c := by
  obtain ⟨base, htracks⟩ := h.tracks
  have hsound : { l with run := l.run.absorbAll }.Sound name c :=
    .withRun htracks.absorbAll (Or.inr (Or.inr hs))
  rw [PipelineLoop.close]
  dsimp only
  split
  · exact hsound.beginMarking true
  · exact hsound.finish

/-- **Whatever a loop does without the store**, it stays sound. -/
theorem Sound.react (h : l.Sound name c) (move : LoopMove) : (l.react move).Sound name c := by
  obtain ⟨base, htracks⟩ := h.tracks
  have hreacts := l.reacts_react move
  generalize l.react move = l' at hreacts ⊢
  cases hreacts with
  | hold hs => exact ⟨⟨base, { htracks with }⟩, LoopState.sound_of_idle (Or.inl hs) _⟩
  | fetch => exact ⟨⟨base, { htracks with }⟩, rfl⟩
  | dispatch hs hrun => exact .withRun (htracks.dispatch hrun) (hs.imp_right Or.inl)
  | absorb hs hrun => exact .withRun (htracks.absorb hrun) (hs.imp_right Or.inl)
  | note hs hrun =>
    have hsound := Sound.withRun (htracks.absorb hrun) (Or.inl hs)
    exact hsound.beginMarking false
  | stop | cease => exact h.goTo fun _ => trivial
  | timeOut => exact ⟨⟨base, htracks.filter _⟩, trivial⟩
  | close hs => exact h.close hs
  | idle => exact h

/-- **A worker goes on, whatever the loop is at**, if what its handler has done is in the
chronicle. -/
theorem Sound.work (h : l.Sound name c) {number : Nat} {outcome : Outcome}
    (hreturned : ∀ e, l.run.returned? number outcome = some e → c.handled e) :
    (l.work number outcome).Sound name c := by
  obtain ⟨base, htracks⟩ := h.tracks
  refine ⟨⟨base, htracks.work hreturned⟩, ?_⟩
  change l.state.Sound name c (l.run.work number outcome).position
  rw [(PipelineRun.work_sameProgress number outcome l.run).position]
  exact h.state

/-! ### With the store -/

/-- The first position has been found, or not. -/
theorem Sound.resumed (h : l.Sound name c) {result : Except PipelineError (Option Nat)}
    (hr : ∀ position, result = .ok position → c.HandledTo (position.getD 0)) :
    (l.resumed result).loop.Sound name c := by
  obtain ⟨base, htracks⟩ := h.tracks
  cases result with
  | error e => exact h.goTo fun _ => trivial
  | ok position =>
    have hstart := PipelineRun.tracks_start l.run.config (hr position rfl)
    exact ⟨⟨_, htracks.name_eq ▸ hstart⟩, trivial⟩

/-- A batch has been fetched, or not. -/
theorem Sound.fetched (h : l.Sound name c) (keyOf : Event → Uuid)
    {result : Except LogError (List Event)}
    (hr : ∀ events, result = .ok events →
      Follow (l.run.position.getD 0) events ∧ ∀ e ∈ events, c.stored e) :
    (l.fetched keyOf result).loop.Sound name c := by
  obtain ⟨base, htracks⟩ := h.tracks
  cases result with
  | error e => exact h.goTo fun _ => trivial
  | ok events =>
    obtain ⟨hfollow, hstored⟩ := hr events rfl
    exact ⟨⟨base, htracks.accept keyOf hstored hfollow⟩, trivial⟩

/-- The progress has been noted, or not. A failed write leaves the run as it was. -/
theorem Sound.marked (h : l.Sound name c) (isLast : Bool) (result : Except StoreError Unit) :
    (l.marked isLast result).loop.Sound name c := by
  obtain ⟨base, htracks⟩ := h.tracks
  cases result with
  | error e => exact h.goOn isLast
  | ok _ =>
    have hnoted : l.run.noted.Tracks name c base := htracks.noted
    rw [PipelineLoop.marked]
    dsimp only
    split
    · exact ⟨⟨base, hnoted⟩, trivial⟩
    · exact ⟨⟨base, hnoted⟩, trivial⟩

/-- **A step of the loop's procedure**, perhaps a failing one, leaves the loop sound, and stores
only a row that names an event that may be noted. -/
theorem Sound.proceed (h : l.Sound name c) {s : Store} (hs : s.Attests c)
    (keyOf : Event → Uuid) (fault : Option StoreError) :
    (l.proceed keyOf fault s).1.Sound name c ∧
      s.Noted (fun row => row.pipeline = name ∧ c.Reached row.event)
        (l.proceed keyOf fault s).2 := by
  have hstate := h.state
  cases hl : l.state with
  | resuming search =>
    rw [hl] at hstate
    rw [proceed_resuming keyOf fault s hl]
    cases hr : (search.next l.run.config.name).result? with
    | some result =>
      refine ⟨h.resumed fun position heq => ?_, .refl _ s⟩
      subst heq
      exact Resuming.Sound.of_result? hstate hr
    | none =>
      have hstep := Resuming.Sound.step hstate hs l.run.config.name fault
      exact ⟨⟨h.tracks, hstep⟩, ((Resuming.next_looks _ search).ofPipeline _).noted fault search s⟩
  | fetching reading =>
    rw [hl] at hstate
    rw [proceed_fetching keyOf fault s hl]
    cases hr : reading.next.result? with
    | some result =>
      refine ⟨h.fetched keyOf fun events heq => ?_, .refl _ s⟩
      subst heq
      exact Reading.Fetches.of_result? hstate hr
    | none =>
      have hstep := Reading.Fetches.step hstate hs fault
      exact ⟨⟨h.tracks, hstep⟩, (reading.next_looks.ofPipeline _).noted fault reading s⟩
  | marking b marking isLast =>
    rw [hl] at hstate
    obtain ⟨hname, hreached⟩ := hstate
    rw [proceed_marking keyOf fault s hl]
    cases hr : (marking.next b).result? with
    | some result => exact ⟨h.marked isLast result, .refl _ s⟩
    | none =>
      -- of all steps of a loop only this one can store a row
      have hnoted := (marking.next_calls b).noted fault marking s
      refine ⟨⟨h.tracks, hname, hreached⟩, { hnoted with rows := fun row hrow => ?_ }⟩
      refine (hnoted.rows row hrow).imp_right fun ⟨hpipeline, hevent⟩ => ?_
      rw [hpipeline, hevent]
      exact ⟨hname, hreached⟩
  | _ =>
    rw [proceed_eq_self keyOf fault s (by simp only [procedure?, hl])]
    exact ⟨h, .refl _ s⟩

end PipelineLoop

end EventJournal
