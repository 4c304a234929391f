import EventJournal.Proofs.Appending.Claims
import EventJournal.Proofs.Pipeline.Loop

/-!
# A pipeline over its runs

A pipeline is run again and again under its name, and writers append to the log meanwhile. A run
ends by itself, after it was stopped, or is abandoned at whatever it is at; the next one begins
with nothing but the rows that were stored (`EventJournal.Deployment`). Everything that can
happen next is one of a few moves (`EventJournal.Deployment.Move`), and a history is a list of
them: no order is left out, and a move that is not possible changes nothing.

A row is stored only for an event up to which all events have been handled
(`EventJournal.Deployment.handled_before_row`). It takes two things to see this: that each run
keeps track of its elements, which is `EventJournal.PipelineLoop.Sound`, and that it begins at a
row of an earlier one, of which the same was true when it was stored and is true ever since.

The handler of an element that has been given up may still return. Nobody hears of it, so that
nothing rests on it, and it is not recorded.
-/

namespace EventJournal

/-- **A pipeline, its runs, and the log.** -/
structure Deployment where
  /-- The name of the pipeline. -/
  name : String
  /-- The store and those who append to it. -/
  log : Interleaving Writer
  /-- The loop of the latest run, unless the run was abandoned. -/
  loop : Option PipelineLoop
  /-- The key of an event in the latest run. -/
  keyOf : Event → Uuid
  /-- How many runs have begun, which is the number of the latest. -/
  runs : Nat
  /-- The events whose handler has done its work, with the numbers of the runs. -/
  handled : List (Nat × Event)

namespace Deployment

/-- **What can happen next.** -/
inductive Move
  /-- A writer takes a step. -/
  | write (writer : Nat)
  /-- A run begins. -/
  | launch (config : PipelineConfig) (keyOf : Event → Uuid)
  /-- The loop takes a step of the procedure that it is at, the call of which may fail. -/
  | proceed (fault : Option StoreError)
  /-- The loop does something without the store. -/
  | react (move : LoopMove)
  /-- The worker of the element with a number goes on; if the handler runs, it returns with the
  outcome. -/
  | work (number : Nat) (outcome : Outcome)
  /-- The run is abandoned. -/
  | abandon

/-- A pipeline that was never run, and writers on an empty log that have not begun. -/
def start (name : String) (batches : List Batch) : Deployment where
  name := name
  log := .ofBatches .empty batches
  loop := none
  keyOf := Event.stream
  runs := 0
  handled := []

/-- The store. -/
def store (d : Deployment) : Store := d.log.store

/-- Whether a run may begin. -/
def isIdle (d : Deployment) : Bool := d.loop.all (·.isEnded)

/-- The loop `l` takes a step of the procedure that it is at. -/
def proceed (fault : Option StoreError) (l : PipelineLoop) (d : Deployment) : Deployment :=
  let (loop, store) := l.proceed d.keyOf fault d.store
  { d with loop := some loop, log := { d.log with store } }

/-- A worker of the loop `l` goes on. A success of its handler is recorded. -/
def work (number : Nat) (outcome : Outcome) (l : PipelineLoop) (d : Deployment) : Deployment :=
  { d with
    loop := some (l.work number outcome)
    handled := d.handled ++ (l.run.returned? number outcome).toList.map fun e => (d.runs, e) }

/-- **One move.** -/
def act (move : Move) (d : Deployment) : Deployment :=
  match move, d.loop with
  | .write writer, _ => { d with log := d.log.step Writer.next writer }
  | .launch config keyOf, _ =>
    if config.name = d.name ∧ config.fault? = none ∧ d.isIdle then
      { d with loop := some (.start config), keyOf, runs := d.runs + 1 }
    else d
  | .proceed fault, some l => d.proceed fault l
  | .react move, some l => { d with loop := some (l.react move) }
  | .work number outcome, some l => d.work number outcome l
  | .abandon, some _ => { d with loop := none }
  | _, none => d

/-- A history of moves. -/
def run (moves : List Move) (d : Deployment) : Deployment := moves.foldl (fun d m => d.act m) d

/-! ### The invariant -/

/-- What is stored, and what has been handled in the runs so far. -/
def chronicle (d : Deployment) : Chronicle where
  stored e := e ∈ d.store.events.toList
  handled e := ∃ k, (k, e) ∈ d.handled

/-- **The invariant**: the store bears the chronicle out, and the loop is sound. -/
structure Safe (d : Deployment) : Prop where
  /-- The rows and the events. -/
  attests : d.store.Attests d.chronicle
  /-- The heads. -/
  inPlace : d.store.HeadsInPlace
  /-- What is known of each writer. -/
  writers : ∀ w ∈ d.log.states, w.append.Sound w.batch
  /-- Only runs that have begun handle anything. -/
  runs_le : ∀ k e, (k, e) ∈ d.handled → k ≤ d.runs
  /-- The loop, if there is one. -/
  loop : ∀ l, d.loop = some l → l.Sound d.name d.chronicle

theorem safe_start (name : String) (batches : List Batch) : (start name batches).Safe where
  attests :=
    { ordered := Store.ordered_empty
      stored_iff := fun e => Iff.rfl
      stored_of_handled := fun e ⟨k, he⟩ => nomatch he
      reached := nofun }
  inPlace := Store.headsInPlace_empty
  writers w hw := by
    obtain ⟨b, -, rfl⟩ := List.mem_map.mp hw
    exact Append.sound_start b
  runs_le := nofun
  loop l hl := by cases hl

/-- **What a move leads to.** -/
structure Leads (d d' : Deployment) : Prop where
  /-- The pipeline is the same. -/
  name_eq : d'.name = d.name
  /-- What was stored or handled still is. -/
  grows : d.chronicle.Grows d'.chronicle
  /-- A row that is new names an event that might be noted before. -/
  rows : ∀ row ∈ d'.store.checkpoints,
    row ∈ d.store.checkpoints ∨ row.pipeline = d.name ∧ d.chronicle.Reached row.event
  /-- The invariant holds. -/
  safe : d'.Safe

variable {d d' : Deployment}

theorem Safe.leads_refl (h : d.Safe) : d.Leads d := ⟨rfl, .refl _, fun _ => Or.inl, h⟩

/-- A row that might be noted may be noted ever after. -/
theorem Safe.leads (h : d.Safe) (hname : d'.name = d.name) (hgrows : d.chronicle.Grows d'.chronicle)
    (hrows : ∀ row ∈ d'.store.checkpoints,
      row ∈ d.store.checkpoints ∨ row.pipeline = d.name ∧ d.chronicle.Reached row.event)
    (hordered : d'.store.Ordered) (hinPlace : d'.store.HeadsInPlace)
    (hwriters : ∀ w ∈ d'.log.states, w.append.Sound w.batch)
    (hhandled : ∀ k e, (k, e) ∈ d'.handled → k ≤ d'.runs ∧ d'.chronicle.stored e)
    (hloop : ∀ l, d'.loop = some l → l.Sound d.name d'.chronicle) : d.Leads d' where
  name_eq := hname
  grows := hgrows
  rows := hrows
  safe :=
    { attests :=
        { ordered := hordered
          stored_iff := fun e => Iff.rfl
          stored_of_handled := fun e ⟨k, hk⟩ => (hhandled k e hk).2
          reached := fun row hrow => by
            rcases hrows row hrow with hold | ⟨-, hnew⟩
            · exact (h.attests.reached row hold).mono hgrows
            · exact hnew.mono hgrows }
      inPlace := hinPlace
      writers := hwriters
      runs_le := fun k e hk => (hhandled k e hk).1
      loop := fun l hl => hname ▸ hloop l hl }

/-- A move that leaves the log alone. -/
theorem Safe.leads_of_log_eq (h : d.Safe) (hname : d'.name = d.name) (hlog : d'.log = d.log)
    (hmem : ∀ e, d.chronicle.handled e → d'.chronicle.handled e)
    (hhandled : ∀ k e, (k, e) ∈ d'.handled → k ≤ d'.runs ∧ d.chronicle.stored e)
    (hloop : ∀ l, d'.loop = some l → l.Sound d.name d'.chronicle) : d.Leads d' := by
  have hstore : d'.store = d.store := congrArg Interleaving.store hlog
  have hstored : d'.chronicle.stored = d.chronicle.stored := by
    simp only [chronicle, hstore]
  have hgrows : d.chronicle.Grows d'.chronicle :=
    ⟨fun e he => hstored ▸ he, hmem⟩
  refine h.leads hname hgrows ?_ ?_ ?_ ?_ ?_ hloop
  · rw [hstore]
    exact fun _ => Or.inl
  · exact hstore ▸ h.attests.ordered
  · exact hstore ▸ h.inPlace
  · exact hlog ▸ h.writers
  · exact hstored ▸ hhandled

theorem Safe.stored_of_handled (h : d.Safe) {k : Nat} {e : Event} (he : (k, e) ∈ d.handled) :
    d.chronicle.stored e := h.attests.stored_of_handled e ⟨k, he⟩

/-! ### The moves -/

/-- A run begins with nothing but its settings. -/
theorem Safe.launch (h : d.Safe) (config : PipelineConfig) (keyOf : Event → Uuid) :
    d.Leads (d.act (.launch config keyOf)) := by
  unfold act
  dsimp only
  split
  · next hmay =>
    refine h.leads_of_log_eq rfl rfl (fun e => id) ?_ ?_
    · intro k e hk
      exact ⟨(h.runs_le k e hk).trans (Nat.le_succ _), h.stored_of_handled hk⟩
    · intro l hl
      cases hl
      exact hmay.1 ▸ PipelineLoop.sound_start config _
  · exact h.leads_refl

/-- The loop does something without the store. -/
theorem Safe.react (h : d.Safe) {l : PipelineLoop} (hl : d.loop = some l) (move : LoopMove) :
    d.Leads { d with loop := some (l.react move) } := by
  refine h.leads_of_log_eq rfl rfl (fun e => id) ?_ ?_
  · intro k e hk
    exact ⟨h.runs_le k e hk, h.stored_of_handled hk⟩
  · intro l' hl'
    cases hl'
    exact (h.loop l hl).react move

theorem mem_handled_work {number : Nat} {outcome : Outcome} {l : PipelineLoop} {k : Nat}
    {e : Event} : (k, e) ∈ (d.work number outcome l).handled ↔
      (k, e) ∈ d.handled ∨ k = d.runs ∧ l.run.returned? number outcome = some e := by
  rw [work, List.mem_append, List.mem_map]
  refine or_congr_right ⟨?_, ?_⟩
  · rintro ⟨x, hx, heq⟩
    cases heq
    exact ⟨rfl, Option.mem_toList.mp hx⟩
  · rintro ⟨rfl, he⟩
    exact ⟨e, Option.mem_toList.mpr he, rfl⟩

/-- A worker goes on. What its handler has done is in hand, and so is stored. -/
theorem Safe.work (h : d.Safe) {l : PipelineLoop} (hl : d.loop = some l) (number : Nat)
    (outcome : Outcome) : d.Leads (d.work number outcome l) := by
  have hsound := h.loop l hl
  have hgrows : d.chronicle.Grows (d.work number outcome l).chronicle :=
    ⟨fun e => id, fun e ⟨k, hk⟩ => ⟨k, mem_handled_work.mpr (Or.inl hk)⟩⟩
  refine h.leads_of_log_eq rfl rfl hgrows.handled ?_ ?_
  · intro k e hk
    rcases mem_handled_work.mp hk with hk | ⟨rfl, he⟩
    · exact ⟨h.runs_le k e hk, h.stored_of_handled hk⟩
    · obtain ⟨base, htracks⟩ := hsound.tracks
      exact ⟨le_rfl, (htracks.stored_of_returned? he).1⟩
  · intro l' hl'
    cases hl'
    -- the worker goes on in the chronicle that has its success already
    refine (hsound.mono hgrows).work ?_
    intro e he
    exact ⟨d.runs, mem_handled_work.mpr (Or.inr ⟨rfl, he⟩)⟩

/-- The loop takes a step of its procedure, while the writers stand still. -/
theorem Safe.proceed (h : d.Safe) {l : PipelineLoop} (hl : d.loop = some l)
    (fault : Option StoreError) : d.Leads (d.proceed fault l) := by
  obtain ⟨hsound, hnoted⟩ := (h.loop l hl).proceed h.attests d.keyOf fault
  have hstored : ∀ e, (d.proceed fault l).chronicle.stored e ↔ d.chronicle.stored e := by
    intro e
    change e ∈ (l.proceed d.keyOf fault d.store).2.events.toList ↔ _
    rw [hnoted.events]
    rfl
  have hgrows : d.chronicle.Grows (d.proceed fault l).chronicle :=
    ⟨fun e => (hstored e).mpr, fun e => id⟩
  refine h.leads rfl hgrows hnoted.rows (hnoted.ordered h.attests.ordered)
    (h.inPlace.congr hnoted.heads) h.writers ?_ ?_
  · intro k e hk
    exact ⟨h.runs_le k e hk, (hstored e).mpr (h.stored_of_handled hk)⟩
  · intro l' hl'
    cases hl'
    exact hsound.mono hgrows

/-- The writers change the log, without storing a row or losing an event. -/
theorem Safe.leads_withLog (h : d.Safe) {log : Interleaving Writer}
    (hordered : log.store.Ordered) (hinPlace : log.store.HeadsInPlace)
    (hevents : ∀ e ∈ d.store.events.toList, e ∈ log.store.events.toList)
    (hrows : log.store.checkpoints = d.store.checkpoints)
    (hwriters : ∀ w ∈ log.states, w.append.Sound w.batch) : d.Leads { d with log } := by
  have hgrows : d.chronicle.Grows (chronicle { d with log }) := ⟨hevents, fun e => id⟩
  refine h.leads rfl hgrows ?_ hordered hinPlace hwriters ?_ ?_
  · intro row hrow
    exact Or.inl (hrows ▸ hrow)
  · intro k e hk
    exact ⟨h.runs_le k e hk, hevents e (h.stored_of_handled hk)⟩
  · intro l hl
    exact (h.loop l hl).mono hgrows

/-- A writer takes a step. -/
theorem Safe.write (h : d.Safe) (writer : Nat) : d.Leads (d.act (.write writer)) := by
  unfold Deployment.act
  dsimp only
  cases hi : d.log.states[writer]? with
  | none =>
    rw [Interleaving.step_eq_self hi]
    exact h.leads_refl
  | some w =>
    have hw := h.writers w (List.mem_of_getElem? hi)
    have hstep := Append.step_next h.attests.ordered h.inPlace hw
    obtain ⟨hordered, hinPlace, hevents, hrows⟩ :=
      (hstep.effect hw).keeps h.attests.ordered h.inPlace
    rw [Interleaving.step_eq_of_getElem? hi (Writer.step_next w d.log.store)]
    refine h.leads_withLog hordered hinPlace hevents hrows ?_
    exact Interleaving.forall_mem_set h.writers (hstep.sound hw)

/-- **Whatever happens next.** -/
theorem Safe.act (h : d.Safe) (move : Move) : d.Leads (d.act move) := by
  cases move with
  | write writer => exact h.write writer
  | launch config keyOf => exact h.launch config keyOf
  | proceed fault =>
    unfold Deployment.act
    cases hl : d.loop with
    | none => exact h.leads_refl
    | some l => exact h.proceed hl fault
  | react move =>
    unfold Deployment.act
    cases hl : d.loop with
    | none => exact h.leads_refl
    | some l => exact h.react hl move
  | work number outcome =>
    unfold Deployment.act
    cases hl : d.loop with
    | none => exact h.leads_refl
    | some l => exact h.work hl number outcome
  | abandon =>
    unfold Deployment.act
    cases hl : d.loop with
    | none => exact h.leads_refl
    | some l =>
      refine h.leads_of_log_eq rfl rfl (fun e => id) ?_ ?_
      · intro k e hk
        exact ⟨h.runs_le k e hk, h.stored_of_handled hk⟩
      · intro l' hl'
        cases hl'

/-- **A history keeps what there was**, and the invariant holds at its end. -/
theorem Safe.run (h : d.Safe) (moves : List Move) :
    d.chronicle.Grows (d.run moves).chronicle ∧ (d.run moves).name = d.name ∧
      (d.run moves).Safe := by
  induction moves generalizing d with
  | nil => exact ⟨.refl _, rfl, h⟩
  | cons move rest ih =>
    have hleads := h.act move
    obtain ⟨hgrows, hname, hsafe⟩ := ih hleads.safe
    exact ⟨hleads.grows.trans hgrows, hname.trans hleads.name_eq, hsafe⟩

/-! ### What a row says -/

/-- **A row is stored only when everything up to its event has been handled.** Whatever has
happened `before` and whatever happens `after`: when a move stores a row of a pipeline, the row
names a stored event, and of all events that are ever stored up to the position of that one the
handler had done its work, in the run of the move or an earlier one. -/
theorem handled_before_row (name : String) (batches : List Batch) (before after : List Move)
    (move : Move) {d₁ d₂ d₃ : Deployment} (h₁ : (start name batches).run before = d₁)
    (h₂ : d₁.act move = d₂) (h₃ : d₂.run after = d₃) {row : Checkpoint}
    (hold : row ∉ d₁.store.checkpoints) (hnew : row ∈ d₂.store.checkpoints) :
    row.pipeline = name ∧ ∃ e ∈ d₁.store.events.toList, e.id = row.event ∧
      ∀ x ∈ d₃.store.events.toList, x.position ≤ e.position →
        ∃ k ≤ d₁.runs, (k, x) ∈ d₁.handled := by
  subst h₁ h₂ h₃
  obtain ⟨-, hname, hsafe⟩ := (safe_start name batches).run before
  have hleads := hsafe.act move
  obtain ⟨hgrows, -, hend⟩ := hleads.safe.run after
  obtain ⟨hpipeline, e, he, hid, hto⟩ := (hleads.rows row hnew).resolve_left hold
  refine ⟨hpipeline.trans hname, e, he, hid, ?_⟩
  intro x hx hle
  obtain ⟨y, ⟨k, hk⟩, hpos⟩ := hto x.position (hend.attests.ordered.position_pos hx) hle
  -- the event that was handled is still there, and no other is at its position
  have hy := (hleads.grows.trans hgrows).stored y (hsafe.stored_of_handled hk)
  obtain rfl := hend.attests.ordered.coherent.eq_of_clash hy hx (Or.inl hpos)
  exact ⟨k, hsafe.runs_le k y hk, hk⟩

/-- Steps of the loop's procedures, none of which fails. -/
def proceeds (n : Nat) : List Move := List.replicate n (.proceed none)

/-- The handling of the element with a number, from its dispatch to its count. -/
def handles (number : Nat) (outcome : Outcome) : List Move :=
  .react .dispatch :: List.replicate 5 (.work number outcome)

/-- A history in which the first run of a pipeline handles one event of two, fails at the other
and is abandoned, and the second handles that, fails to note it, and is stopped. -/
def restart (config : PipelineConfig) : List Move :=
  List.flatten
    [List.replicate 6 (.write 0), [.launch config Event.stream], proceeds 3,
      [.react (.tick 0)], proceeds 2, handles 1 .succeeded, handles 2 .failed,
      [.react .absorb], proceeds 7, [.abandon, .launch config Event.stream], proceeds 4,
      [.react (.tick 0)], proceeds 2, handles 1 .succeeded,
      [.react .absorb, .proceed (some (.unavailable "closed"))], proceeds 2,
      [.react .stop, .react .cease, .react .close], proceeds 3]

/-- The pipeline at the end of that history, about to note the second event. -/
def restarted : Deployment :=
  (start "a" [.ofNumbers 1 0 [1, 2]]).run (restart { name := "a", checkpointThreshold := 1 })

/-- The row that is stored next. -/
def restartedRow : Checkpoint := ⟨"a", .ofNat 2, 2, .epoch⟩

theorem handled_before_row_restarted :
    restarted.handled.map (fun p => (p.1, p.2.position)) = [(1, 1), (2, 2)] ∧
      restartedRow ∉ restarted.store.checkpoints ∧
      restartedRow ∈ (restarted.act (.proceed none)).store.checkpoints ∧
      restartedRow.pipeline = "a" ∧
      ∃ e ∈ restarted.store.events.toList, e.id = restartedRow.event ∧
        ∀ x ∈ ((restarted.act (.proceed none)).run [.proceed none]).store.events.toList,
          x.position ≤ e.position → ∃ k ≤ restarted.runs, (k, x) ∈ restarted.handled := by
  have hhandled : restarted.handled.map (fun p => (p.1, p.2.position)) = [(1, 1), (2, 2)] := by
    decide +kernel
  have hold : restartedRow ∉ restarted.store.checkpoints := by decide +kernel
  have hnew : restartedRow ∈ (restarted.act (.proceed none)).store.checkpoints := by
    decide +kernel
  have hend : (start "a" [.ofNumbers 1 0 [1, 2]]).run
      (restart { name := "a", checkpointThreshold := 1 }) = restarted := by
    rw [restarted]
  exact ⟨hhandled, hold, hnew,
    handled_before_row "a" _ _ [.proceed none] (.proceed none) hend rfl rfl hold hnew⟩

end Deployment

end EventJournal
