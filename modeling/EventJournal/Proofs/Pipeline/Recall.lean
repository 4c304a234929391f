import EventJournal.Proofs.Pipeline.Window

/-!
# What a run remembers

A run remembers the events that it has fetched by their numbers, so that it can name the one at its
frontier when it notes its progress. An event comes in when it is fetched, and is forgotten when a
row has been stored at its number or a later one. Meanwhile the frontier moves on its own, rows are
refused, and the loop may be stopped and give up on its elements.

None of this makes the run look for an event that it does not remember
(`EventJournal.Course.frontier_known`). Two things are needed to see it, and both are kept by
everything that can happen:

| a run | because | theorem |
|---|---|---|
| remembers all numbers since the start of the stretch | it forgets when it begins a new one | `EventJournal.PipelineRun.Knows` |
| hears of no number that it has not given out | it has only such elements in hand | `EventJournal.PipelineRun.Remembers` |

The ledger of the run says more, but is lost when the run gives up on its elements; what is said
here is not. Nor is anything asked of the store: at each step it may be any store at all
(`EventJournal.Course`), so that it does not matter who else uses it, and for what.
-/

namespace EventJournal

/-! ### Runs -/

namespace PipelineRun

/-- **A run that remembers the events that it has fetched**, and has no others in hand. -/
structure Remembers (events : List Event) (r : PipelineRun) : Prop where
  /-- The fetched events have been numbered. -/
  fetched_eq : r.fetched = events.length
  /-- The events by their numbers, since the start of the stretch. -/
  knows : r.Knows events
  /-- The elements in hand. -/
  held : ∀ e, r.Holds e → e.number ≤ events.length
  /-- The numbers that have finished, or are announced to have. -/
  number_le : ∀ n, (r.frontier.Finished n ∨ ∃ e ∈ r.processed, e.number = n) → n ≤ events.length

variable {keyOf : Event → Uuid} {events : List Event} {r r' : PipelineRun}

theorem remembers_start (config : PipelineConfig) (position : Option Nat) :
    (start config position).Remembers [] := by
  have hledger := ledger_start Event.id config position
  exact ⟨rfl, hledger.knows, fun e he => number_le_of_mem_numbered (hledger.mem_of_holds he),
    fun n => hledger.number_le⟩

/-- The frontier is not beyond what was fetched. -/
theorem Remembers.position_le (h : r.Remembers events) : r.frontier.position ≤ events.length :=
  h.number_le _ (Or.inl (Or.inl le_rfl))

/-- One more event is fetched. -/
theorem Remembers.acceptOne (h : r.Remembers events) (keyOf : Event → Uuid) (event : Event) :
    (r.acceptOne keyOf event).Remembers (events ++ [event]) := by
  have hlength : (events ++ [event]).length = events.length + 1 := List.length_append
  refine ⟨?_, h.knows.acceptOne h.fetched_eq h.position_le event, fun e he => ?_, fun n hn => ?_⟩
  · rw [hlength]
    exact congrArg (· + 1) h.fetched_eq
  · rw [hlength]
    rcases holds_of_acceptOne he with hheld | rfl
    · exact Nat.le_succ_of_le (h.held e hheld)
    · exact Nat.succ_le_succ h.fetched_eq.le
  · rw [hlength]
    exact Nat.le_succ_of_le (h.number_le n hn)

/-- **A batch is fetched.** -/
theorem Remembers.accept (h : r.Remembers events) (keyOf : Event → Uuid) (batch : List Event) :
    (r.accept keyOf batch).Remembers (events ++ batch) := by
  have hfold : (batch.foldl (PipelineRun.acceptOne keyOf) r).Remembers (events ++ batch) := by
    induction batch generalizing r events with
    | nil => simpa using h
    | cons e rest ih =>
      have hremembers := ih (h.acceptOne keyOf e)
      rwa [List.append_assoc] at hremembers
  exact { hfold with knows := { hfold.knows with } }

/-- **Elements are handled, and given up**: the run takes nothing in hand, and hears of nothing that
was not in hand. -/
theorem Remembers.handle (h : r.Remembers events) (hsame : r.SameProgress r')
    (hheld : ∀ e, r'.Holds e → r.Holds e)
    (hprocessed : ∀ e ∈ r'.processed, e ∈ r.processed ∨ r.Holds e) : r'.Remembers events := by
  refine ⟨hsame.fetched.trans h.fetched_eq, ⟨fun n => ?_, ?_⟩, fun e he => h.held e (hheld e he),
    fun n hn => ?_⟩
  · rw [hsame.known, hsame.frontier]
    exact h.knows.known_eq n
  · rw [hsame.frontier]
    exact h.knows.tight
  · rw [hsame.frontier] at hn
    rcases hn with hn | ⟨e, he, rfl⟩
    · exact h.number_le n (Or.inl hn)
    · rcases hprocessed e he with he | he
      · exact h.number_le _ (Or.inr ⟨e, he, rfl⟩)
      · exact h.held e he

theorem Remembers.dispatch (h : r.Remembers events) {e : Element}
    (hd : r.dispatch? = some (e, r')) : r'.Remembers events := by
  have hprocessed : r'.processed = r.processed := by
    rw [dispatch?] at hd
    split at hd <;> cases hd
    rfl
  refine h.handle (dispatch?_sameProgress hd) (fun x => holds_of_dispatch? hd) fun x hx => ?_
  exact Or.inl (hprocessed ▸ hx)

/-- **A worker goes on**, whether or not its element was given up. -/
theorem Remembers.work (h : r.Remembers events) (number : Nat) (outcome : Outcome) :
    (r.work number outcome).Remembers events :=
  h.handle (work_sameProgress number outcome r) (fun _ => holds_of_work)
    fun _ => mem_processed_of_work

theorem Remembers.abandon (h : r.Remembers events) (spared : Assignment → Bool) :
    (r.abandon spared).Remembers events :=
  h.handle ⟨rfl, rfl, rfl, rfl, rfl, rfl⟩ (fun _ => holds_of_filter) fun _ => Or.inl

/-- The loop hears of a success. -/
theorem Remembers.absorb (h : r.Remembers events) (ha : r.absorb? = some r') :
    r'.Remembers events := by
  rw [absorb?] at ha
  split at ha
  · next e rest hprocessed =>
    cases ha
    refine ⟨h.fetched_eq, ⟨fun n => ?_, h.knows.tight.finish e.number⟩, h.held, fun n hn => ?_⟩
    · rw [Frontier.start_finish]
      exact h.knows.known_eq n
    · refine h.number_le n ?_
      rw [hprocessed, List.exists_mem_cons_iff, ← or_assoc, @eq_comm _ e.number,
        ← Frontier.finished_finish]
      exact hn
  · cases ha

/-- The loop hears of all successes. -/
theorem Remembers.absorbAll (h : r.Remembers events) : r.absorbAll.Remembers events := by
  refine ⟨h.fetched_eq, h.knows.absorbAll, h.held, fun n hn => ?_⟩
  rcases hn with hn | ⟨e, he, -⟩
  · exact h.number_le n (finished_foldl_finish.mp hn)
  · exact absurd he List.not_mem_nil

/-- The progress is noted. -/
theorem Remembers.noted (h : r.Remembers events) : r.noted.Remembers events :=
  { h with knows := h.knows.noted, number_le := h.number_le }

/-- **What is remembered** are the numbers beyond the start of the stretch, up to the last. -/
theorem Remembers.keys_known (h : r.Remembers events) :
    r.known.keys = List.range' (r.frontier.start + 1) (r.fetched - r.frontier.start) := by
  refine SortedMap.keys_eq_range' fun n => ?_
  rw [h.fetched_eq]
  constructor
  · rintro ⟨id, hid⟩
    rw [h.knows.known_eq] at hid
    split at hid
    · next hlt =>
      obtain ⟨e, he, -⟩ := Option.map_eq_some_iff.mp hid
      have hindex := (List.getElem?_eq_some_iff.mp he).1
      omega
    · cases hid
  · rintro ⟨hlt, hle⟩
    obtain ⟨e, -, he⟩ := h.knows.exists_eq hlt hle
    exact ⟨e.id, he⟩

end PipelineRun

/-! ### Procedures -/

namespace Progress

variable {σ τ ρ π : Type} {warning : Warning}

/-- A procedure that does not report a warning next. -/
def Omits (warning : Warning) (p : Progress σ ρ) : Prop := ∀ rest, p ≠ warns warning rest

theorem omits_finished (result : ρ) : (finished result : Progress σ ρ).Omits warning := nofun

theorem omits_asks (call : Call) (resume : Except StoreError call.Answer → σ) :
    (asks call resume : Progress σ ρ).Omits warning := nofun

theorem omits_moves (rest : σ) : (moves rest : Progress σ ρ).Omits warning := nofun

theorem Omits.within {p : Progress σ ρ} (h : p.Omits warning) (embed : σ → τ)
    {goOn : ρ → Progress τ π} (hgoOn : ∀ r, (goOn r).Omits warning) :
    (p.within embed goOn).Omits warning := by
  cases p with
  | finished r => exact hgoOn r
  | warns w rest =>
    intro rest' heq
    injection heq with hw
    exact h rest (hw ▸ rfl)
  | _ => nofun

end Progress

theorem Locating.next_omits (search : Locating) : search.next.Omits .frontierUnknown := by
  cases search <;> nofun

theorem Reading.next_omits (reading : Reading) : reading.next.Omits .frontierUnknown := by
  cases reading with
  | ofStream stream first last =>
    rw [Reading.next]
    split
    · exact Progress.omits_finished _
    · exact Progress.omits_asks _ _
  | after position limit =>
    rw [Reading.next]
    split
    · exact Progress.omits_finished _
    · exact Progress.omits_asks _ _
  | locating search limit =>
    rw [Reading.next]
    refine search.next_omits.within _ fun r => ?_
    cases r with
    | ok position => exact Progress.omits_moves _
    | error e => exact Progress.omits_finished _
  | done result => exact Progress.omits_finished _

theorem Resuming.next_omits (pipeline : String) (search : Resuming) :
    (search.next pipeline).Omits .frontierUnknown := by
  cases search with
  | asking => exact Progress.omits_asks _ _
  | locating search =>
    refine search.next_omits.within _ fun r => ?_
    cases r <;> exact Progress.omits_finished _
  | done result => exact Progress.omits_finished _

theorem Marking.next_omits (b : Bookmark) (marking : Marking) :
    (marking.next b).Omits .frontierUnknown := by
  cases marking with
  | ordering allocation =>
    refine Progress.Omits.within ?_ _ fun r => ?_
    · cases allocation <;> nofun
    · cases r with
      | ok order => exact Progress.omits_moves _
      | error e => exact Progress.omits_finished _
  | storing order => exact Progress.omits_asks _ _
  | done result => exact Progress.omits_finished _

/-! ### Loops -/

/-- **What a loop is at suits what its run has fetched**: nothing before it has begun, and with a
fetch no more than there is room for. -/
def LoopState.Suits (events : List Event) (r : PipelineRun) : LoopState → Prop
  | resuming _ => events = []
  | fetching reading => reading.Fits r.room
  | _ => True

namespace PipelineLoop

/-- Where the frontier is, if the loop is about to begin a new stretch: the row that it was to write
has been stored. -/
def clears? (l : PipelineLoop) : Option Nat :=
  match l.state with
  | .marking b marking _ =>
    match (marking.next b).result? with
    | some (.ok _) => some l.run.frontier.position
    | _ => none
  | _ => none

/-- **A loop whose run remembers the events that it has fetched**, beyond the number that was noted
last. -/
structure Remembers (config : PipelineConfig) (events : List Event) (noted : Nat)
    (l : PipelineLoop) : Prop where
  /-- The settings. -/
  config_eq : l.run.config = config
  /-- The run. -/
  run : l.run.Remembers events
  /-- The run is not too far ahead of its frontier. -/
  window : events.length ≤ l.run.frontier.position + config.maxInFlight
  /-- The start of the stretch. -/
  start_eq : l.run.frontier.start = noted
  /-- What the loop is at. -/
  state : l.state.Suits events l.run

variable {config : PipelineConfig} {events : List Event} {noted : Nat} {keyOf : Event → Uuid}
  {fault : Option StoreError} {s s' : Store} {w w' : Watch} {l l' : PipelineLoop}

theorem remembers_start (config : PipelineConfig) : (start config).Remembers config [] 0 :=
  ⟨rfl, PipelineRun.remembers_start config none, Nat.zero_le _, rfl, rfl⟩

/-- The loop comes to another thing. -/
theorem Remembers.goTo (h : l.Remembers config events noted) {state : LoopState}
    (hstate : state.Suits events l.run) : (l.goTo state).Remembers config events noted :=
  { h with state := hstate }

/-- The run goes on, in the same stretch. -/
theorem Remembers.withRun (h : l.Remembers config events noted) {run : PipelineRun}
    {state : LoopState} (hrun : run.Remembers events) (hconfig : run.config = l.run.config)
    (hposition : l.run.frontier.position ≤ run.frontier.position)
    (hstart : run.frontier.start = l.run.frontier.start) (hstate : state.Suits events run) :
    Remembers config events noted ⟨run, state⟩ where
  config_eq := hconfig.trans h.config_eq
  run := hrun
  window := h.window.trans (Nat.add_le_add_right hposition _)
  start_eq := hstart.trans h.start_eq
  state := hstate

/-- **The event at the frontier is found**, if there is progress to note. -/
theorem Remembers.beginMarking (h : l.Remembers config events noted)
    (hlength : 0 < l.run.frontier.length) (isLast : Bool) :
    (l.beginMarking isLast).loop.Remembers config events noted ∧
      (l.beginMarking isLast).warnings = [] := by
  obtain ⟨e, -, hreached⟩ := h.run.knows.reached_eq h.run.position_le hlength
  simp only [PipelineLoop.beginMarking, hreached]
  exact ⟨h.goTo trivial, trivial⟩

/-- A loop that serves or drains has nothing to do with the store. -/
theorem suits_of_idle {state : LoopState} (hs : state = .serving ∨ state = .draining)
    (events : List Event) (r : PipelineRun) : state.Suits events r := by
  rcases hs with rfl | rfl <;> trivial

/-- The loop hears of a success. -/
theorem Remembers.absorb (h : l.Remembers config events noted)
    (hs : l.state = .serving ∨ l.state = .draining) {run : PipelineRun}
    (hrun : l.run.absorb? = some run) : { l with run }.Remembers config events noted := by
  obtain ⟨hconfig, -, -, -, hstart, hposition⟩ := PipelineRun.absorb?_frame hrun
  exact h.withRun (h.run.absorb hrun) hconfig hposition hstart (suits_of_idle hs events run)

/-- The loop hears of all successes. -/
theorem Remembers.absorbAll (h : l.Remembers config events noted) (hs : l.state = .closing) :
    { l with run := l.run.absorbAll }.Remembers config events noted := by
  have hstart := (PipelineRun.tight_foldl_finish h.run.knows.tight l.run.processed).2
  refine h.withRun h.run.absorbAll rfl (PipelineRun.position_le_foldl_finish _ _) hstart ?_
  rw [hs]
  trivial

/-- Progress that is due has been made. -/
theorem Remembers.length_pos_of_isDue (h : l.Remembers config events noted)
    (hvalid : config.fault? = none) (hdue : l.run.isDue = true) : 0 < l.run.frontier.length := by
  have hle := of_decide_eq_true hdue
  rw [h.config_eq] at hle
  exact (PipelineConfig.pos_of_fault? hvalid).2.1.trans_le hle

/-- **Whatever the loop does without the store**, its run remembers. -/
theorem Remembers.react (h : l.Remembers config events noted) (hvalid : config.fault? = none)
    (move : LoopMove) : (l.react move).Remembers config events noted := by
  have hreacts := l.reacts_react move
  generalize l.react move = l' at hreacts ⊢
  cases hreacts with
  | hold hs =>
    exact h.withRun { h.run with knows := { h.run.knows with } } rfl le_rfl rfl
      (suits_of_idle (Or.inl hs) _ _)
  | fetch hs now hlimit =>
    exact h.withRun { h.run with knows := { h.run.knows with } } rfl le_rfl rfl
      (PipelineRun.limit?_le_room hlimit)
  | dispatch hs hrun =>
    have hsame := PipelineRun.dispatch?_sameProgress hrun
    exact h.withRun (h.run.dispatch hrun) hsame.config (by rw [hsame.frontier])
      (by rw [hsame.frontier]) (suits_of_idle hs _ _)
  | absorb hs hrun => exact h.absorb hs hrun
  | note hs hrun hdue =>
    have habsorbed := h.absorb (Or.inl hs) hrun
    exact (habsorbed.beginMarking (habsorbed.length_pos_of_isDue hvalid hdue) false).1
  | stop | cease => exact h.goTo trivial
  | timeOut => exact h.withRun (h.run.abandon _) rfl le_rfl rfl trivial
  | close hs =>
    have habsorbed := h.absorbAll hs
    rw [PipelineLoop.close]
    dsimp only
    split
    · next hlength => exact (habsorbed.beginMarking hlength true).1
    · exact habsorbed.goTo trivial
  | idle => exact h

/-- **A worker goes on**, whatever the loop is at. -/
theorem Remembers.work (h : l.Remembers config events noted) (number : Nat) (outcome : Outcome) :
    (l.work number outcome).Remembers config events noted := by
  have hsame := PipelineRun.work_sameProgress number outcome l.run
  refine h.withRun (h.run.work number outcome) hsame.config (by rw [hsame.frontier])
    (by rw [hsame.frontier]) ?_
  have hstate := h.state
  cases hs : l.state with
  | fetching reading =>
    rw [hs] at hstate
    have hroom : reading.Fits (l.run.work number outcome).room := hsame.room.symm ▸ hstate
    exact hroom
  | resuming search =>
    rw [hs] at hstate
    exact hstate
  | _ => trivial

/-- A batch is fetched that fits into the room that there is. -/
theorem Remembers.accept (h : l.Remembers config events noted) {batch : List Event}
    (hroom : batch.length ≤ l.run.room) :
    Remembers config (events ++ batch) noted ⟨l.run.accept keyOf batch, .serving⟩ := by
  obtain ⟨hconfig, hfrontier, -⟩ := l.run.accept_frame keyOf batch
  refine ⟨hconfig.trans h.config_eq, h.run.accept keyOf batch, ?_, ?_, trivial⟩
  · have hle := h.run.position_le
    have hwindow := h.window
    rw [PipelineRun.room, PipelineRun.inFlight, h.run.fetched_eq, h.config_eq] at hroom
    rw [hfrontier, List.length_append]
    omega
  · rw [hfrontier]
    exact h.start_eq

/-- A run that has fetched nothing has noted nothing. -/
theorem Remembers.noted_eq_zero (h : l.Remembers config [] noted) : noted = 0 := by
  rw [← h.start_eq]
  exact Nat.le_zero.mp (h.run.knows.tight.start_le.trans h.run.position_le)

/-- **A step of the loop's procedure**, on whatever store, and perhaps a failing one: the run
forgets when a row was stored, and only then. -/
theorem Proceeds.remembers (hproceeds : l.Proceeds keyOf fault s w l' s' w')
    (h : l.Remembers config w.fetched noted) :
    l'.Remembers config w'.fetched (l.clears?.getD noted) := by
  have hstate := h.state
  cases hproceeds with
  | ask hs | seek hs =>
    rw [hs] at hstate
    simp only [clears?, hs]
    exact h.goTo hstate
  | @begin search hs position hr =>
    rw [hs] at hstate
    have hnil : w.fetched = [] := hstate
    rw [hnil] at h ⊢
    simp only [clears?, hs]
    obtain rfl := h.noted_eq_zero
    exact ⟨h.config_eq, PipelineRun.remembers_start _ position, Nat.zero_le _, rfl, trivial⟩
  | refuse hs | miss hs =>
    simp only [clears?, hs]
    exact h.goTo trivial
  | @read reading hs hr =>
    rw [hs] at hstate
    have hfits : reading.Fits l.run.room := hstate
    simp only [clears?, hs]
    exact h.goTo (hfits.step s fault)
  | @fetch reading hs batch hr =>
    rw [hs] at hstate
    simp only [clears?, hs]
    exact h.accept (Reading.Brings.of_result? hstate (fun _ hle => hle) hr)
  | write hs hr =>
    simp only [clears?, hs, hr]
    exact h.goTo trivial
  | @mark b marking isLast hs result hr =>
    simp only [clears?, hs, hr]
    cases result with
    | error e => cases isLast <;> exact h.goTo trivial
    | ok _ =>
      have hnoted : ∀ state : LoopState, state.Suits w.fetched l.run.noted →
          Remembers config w.fetched l.run.frontier.position ⟨l.run.noted, state⟩ :=
        fun state hs => ⟨h.config_eq, h.run.noted, h.window, rfl, hs⟩
      cases isLast <;> exact hnoted _ trivial
  | idle hnone =>
    have hclears : l.clears? = none := by
      rw [clears?]
      split
      · next hs =>
        rw [procedure?, hs] at hnone
        cases hnone
      · rfl
    rw [hclears]
    exact h

/-! ### Reports -/

/-- A standstill is all that is reported of a fetch. -/
theorem frontierUnknown_notMem_tick (now : Nat) (l : PipelineLoop) :
    .frontierUnknown ∉ (l.tick now).warnings := by
  rw [tick]
  split
  · simp only [PipelineRun.hold]
    split
    · split
      · split <;> simp
      · simp
    · simp
  · simp

/-- Nothing is reported of a success that the loop hears of. -/
theorem Remembers.absorb?_warnings (h : l.Remembers config events noted)
    (hvalid : config.fault? = none) (hs : l.state = .serving ∨ l.state = .draining)
    {turn : LoopTurn} (hturn : l.absorb? = some turn) : turn.warnings = [] := by
  rw [absorb?] at hturn
  obtain ⟨run, hrun, rfl⟩ := Option.map_eq_some_iff.mp hturn
  have habsorbed := h.absorb hs hrun
  split
  · split
    · next hdue =>
      exact (habsorbed.beginMarking (habsorbed.length_pos_of_isDue hvalid hdue) false).2
    · rfl
  · rfl

/-- Nothing is reported when the loop is closed. -/
theorem Remembers.close_warnings (h : l.Remembers config events noted) (hs : l.state = .closing) :
    l.close.warnings = [] := by
  rw [close]
  dsimp only
  split
  · next hlength => exact ((h.absorbAll hs).beginMarking hlength true).2
  · rfl

/-- **The event at the frontier is known** whenever the loop looks for it. -/
theorem Remembers.frontierUnknown_notMem (h : l.Remembers config events noted)
    (hvalid : config.fault? = none) (move : LoopMove) : .frontierUnknown ∉ l.reports move := by
  have hsilent : ∀ {α : Type} (o : Option α) (loopOf : α → PipelineLoop),
      .frontierUnknown ∉ ((o.map fun x => ({ loop := loopOf x } : LoopTurn)).map
        (·.warnings)).getD [] := by
    intro α o loopOf
    cases o <;> exact List.not_mem_nil
  have hheard : (l.state = .serving ∨ l.state = .draining) →
      .frontierUnknown ∉ (l.absorb?.map (·.warnings)).getD [] := by
    intro hs
    cases hturn : l.absorb? with
    | none => exact List.not_mem_nil
    | some turn =>
      rw [Option.map_some, Option.getD_some, h.absorb?_warnings hvalid hs hturn]
      exact List.not_mem_nil
  unfold reports turn?
  split
  · exact frontierUnknown_notMem_tick _ l
  · exact hsilent _ _
  · exact hsilent _ _
  · next hs => exact hheard (Or.inl hs)
  · next hs => exact hheard (Or.inr hs)
  · exact List.not_mem_nil
  · exact hsilent _ _
  · simp [timeOut]
  · next hs =>
    rw [Option.map_some, Option.getD_some, h.close_warnings hs]
    exact List.not_mem_nil
  · exact List.not_mem_nil

/-- **What a procedure of the loop reports**, if the procedure within it does not know of the
frontier. -/
theorem frontierUnknown_notMem_within {σ ρ : Type} {p : Progress σ ρ} {embed : σ → PipelineLoop}
    {turn : ρ → LoopTurn} {keyOf : Event → Uuid} {l : PipelineLoop}
    (hl : l.procedure? keyOf = some (p.within embed fun r => .finished (turn r)))
    (hp : p.Omits .frontierUnknown) (hturn : ∀ r, .frontierUnknown ∉ (turn r).warnings) :
    .frontierUnknown ∉ l.reportsNext keyOf := by
  rw [reportsNext, hl]
  cases p with
  | finished r => exact hturn r
  | warns warning rest =>
    refine fun hmem => hp rest ?_
    rw [List.mem_singleton.mp hmem]
  | asks call resume => exact List.not_mem_nil
  | yields rest => exact List.not_mem_nil
  | moves rest => exact List.not_mem_nil

/-- The procedures of the loop do not know of the frontier, and their results are reported for what
they are. -/
theorem frontierUnknown_notMem_next (keyOf : Event → Uuid) (l : PipelineLoop) :
    .frontierUnknown ∉ l.reportsNext keyOf := by
  cases hs : l.state with
  | resuming search =>
    refine frontierUnknown_notMem_within (by rw [procedure?, hs]) (search.next_omits _) fun r => ?_
    cases r <;> exact List.not_mem_nil
  | fetching reading =>
    refine frontierUnknown_notMem_within (by rw [procedure?, hs]) reading.next_omits fun r => ?_
    cases r <;> simp [fetched]
  | marking b marking isLast =>
    refine frontierUnknown_notMem_within (by rw [procedure?, hs]) (marking.next_omits b) fun r => ?_
    cases r <;> simp [marked]
  | _ =>
    rw [reportsNext, procedure?, hs]
    exact List.not_mem_nil

end PipelineLoop

/-! ### The course of a run -/

/-- **A run in its course**, and what was seen of it. -/
structure Course where
  /-- The loop of the run. -/
  loop : PipelineLoop
  /-- The key of an event. -/
  keyOf : Event → Uuid
  /-- What was seen of the run. -/
  watch : Watch
  /-- Where the frontier was when a row was last stored, zero if none was. -/
  noted : Nat

namespace Course

/-- **What can happen next.** -/
inductive Move
  /-- The loop takes a step of the procedure that it is at, on the store as it is now. Its call may
  fail. -/
  | proceed (fault : Option StoreError) (store : Store)
  /-- The loop does something without the store. -/
  | react (move : LoopMove)
  /-- The worker of the element with a number goes on; if the handler runs, it returns with the
  outcome. -/
  | work (number : Nat) (outcome : Outcome)

/-- A run that is about to begin. -/
def start (config : PipelineConfig) (keyOf : Event → Uuid) : Course :=
  ⟨.start config, keyOf, {}, 0⟩

/-- **One move.** -/
def act (move : Move) (c : Course) : Course :=
  match move with
  | .proceed fault s =>
    { c with
      loop := (c.loop.proceed c.keyOf fault s).1
      watch := c.watch.proceed c.loop s
      noted := c.loop.clears?.getD c.noted }
  | .react move => { c with loop := c.loop.react move, watch := c.watch.react move c.loop }
  | .work number outcome =>
    { c with loop := c.loop.work number outcome, watch := c.watch.work number outcome c.loop }

/-- A history of moves. -/
def run (moves : List Move) (c : Course) : Course := moves.foldl (fun c m => c.act m) c

/-- **What the loop reports** at a move. -/
def reports (move : Move) (c : Course) : List Warning :=
  match move with
  | .proceed .. => c.loop.reportsNext c.keyOf
  | .react move => c.loop.reports move
  | .work .. => []

/-- **The invariant.** -/
def Remembers (config : PipelineConfig) (c : Course) : Prop :=
  c.loop.Remembers config c.watch.fetched c.noted

variable {config : PipelineConfig} {keyOf : Event → Uuid} {c : Course}

/-- **Whatever happens next.** -/
theorem Remembers.act (h : c.Remembers config) (hvalid : config.fault? = none) (move : Move) :
    (c.act move).Remembers config := by
  cases move with
  | proceed fault s =>
    exact (PipelineLoop.proceeds_proceed c.keyOf fault s c.watch c.loop).remembers h
  | react move =>
    unfold Course.Remembers
    rw [Course.act, Watch.react_fetched]
    exact PipelineLoop.Remembers.react h hvalid move
  | work number outcome => exact PipelineLoop.Remembers.work h number outcome

/-- **Whatever happens**, in any order. -/
theorem Remembers.run (h : c.Remembers config) (hvalid : config.fault? = none)
    (moves : List Move) : (c.run moves).Remembers config := by
  induction moves generalizing c with
  | nil => exact h
  | cons move rest ih => exact ih (h.act hvalid move)

/-- **The event at the frontier is always known.** Whatever happens to a run, in any order, on
whatever store, and whatever fails:

* it remembers exactly the numbers beyond the one at which a row was last stored, up to the last
  that it has fetched;
* each of them with the event that was fetched as the one of this number;
* so it remembers no more events than may be ahead of the frontier, and those that the frontier has
  passed since the row;
* and the loop, whatever it does next, does not report that it does not know the event at the
  frontier. -/
theorem frontier_known (hvalid : config.fault? = none) {moves : List Move}
    (hc : (start config keyOf).run moves = c) :
    c.loop.run.known.keys = List.range' (c.noted + 1) (c.loop.run.fetched - c.noted) ∧
      (∀ n, c.noted < n → n ≤ c.loop.run.fetched →
        ∃ e, c.watch.fetched[n - 1]? = some e ∧ c.loop.run.known.get? n = some e.id) ∧
      (c.noted ≤ c.loop.run.frontier.position ∧
        c.loop.run.frontier.position ≤ c.loop.run.fetched) ∧
      c.loop.run.known.size ≤ config.maxInFlight + (c.loop.run.frontier.position - c.noted) ∧
      ∀ move, .frontierUnknown ∉ c.reports move := by
  have hstart : (start config keyOf).Remembers config := PipelineLoop.remembers_start config
  have h : c.loop.Remembers config c.watch.fetched c.noted := hc ▸ hstart.run hvalid moves
  have hkeys := h.run.keys_known
  rw [h.start_eq] at hkeys
  have hle := h.run.knows.tight.start_le
  have hposition := h.run.position_le
  rw [h.start_eq] at hle
  refine ⟨hkeys, fun n hlt hn => ?_, ⟨hle, ?_⟩, ?_, fun move => ?_⟩
  · rw [h.run.fetched_eq] at hn
    exact h.run.knows.exists_eq (h.start_eq.symm ▸ hlt) hn
  · rw [h.run.fetched_eq]
    exact hposition
  · have hwindow := h.window
    rw [← SortedMap.length_keys, hkeys, List.length_range', h.run.fetched_eq]
    omega
  · cases move with
    | proceed fault s => exact PipelineLoop.frontierUnknown_notMem_next c.keyOf c.loop
    | react move => exact h.frontierUnknown_notMem hvalid move
    | work number outcome => exact List.not_mem_nil

/-- A pipeline that stores a row for each event. -/
def eager : PipelineConfig := { name := "a", checkpointThreshold := 1 }

/-- A store of three events on which others have stored rows before. -/
def shared : Store :=
  ((Tenancy.start eager.name).run
    [.call (.commitEvents Sequence.events Tenancy.threeEvents),
      .call (.insertCounter Sequence.checkpoints 4)]).store

/-- A history in which the first of three events is handled and a row is stored for it, then the
second, but its row is refused, and the third is given up when the run is stopped. -/
def refusal : List Move :=
  List.flatten
    [List.replicate 2 (.proceed none shared), [.react (.tick 0)],
    List.replicate 2 (.proceed none shared), List.replicate 3 (.react .dispatch),
    List.replicate 5 (.work 1 .succeeded), [.react .absorb],
    List.replicate 5 (.proceed none shared),
    List.replicate 5 (.work 2 .succeeded), [.react .absorb],
    [.proceed (some (.unavailable "closed")) shared, .proceed none shared,
      .react .stop, .react (.timeOut fun _ => false)]]

/-- The end of that history. -/
def refused : Course := (start eager Event.id).run refusal

/-- The run is about to look for the second event, at its frontier. -/
theorem frontier_known_refused :
    refused.noted = 1 ∧ refused.loop.run.frontier.position = 2 ∧
      refused.loop.run.known.keys = [2, 3] ∧ refused.loop.run.reached? = some (.ofNat 2) ∧
      ∀ move, .frontierUnknown ∉ refused.reports move := by
  have hnoted : refused.noted = 1 := by decide +kernel
  have hfetched : refused.loop.run.fetched = 3 := by decide +kernel
  have hposition : refused.loop.run.frontier.position = 2 := by decide +kernel
  have hevents : refused.watch.fetched = Tenancy.threeEvents := by decide +kernel
  have hend : (start eager Event.id).run refusal = refused := by rw [refused]
  obtain ⟨hkeys, hknown, -, -, hreports⟩ := frontier_known (by decide) hend
  rw [hnoted, hfetched] at hkeys hknown
  rw [hevents] at hknown
  obtain ⟨e, he, hsecond⟩ := hknown 2 (by decide) (by decide)
  obtain rfl : Tenancy.threeEvents[1] = e := Option.some.inj he
  refine ⟨hnoted, hposition, hkeys, ?_, hreports⟩
  rw [PipelineRun.reached?, hposition]
  exact hsecond

end Course

end EventJournal
