import EventJournal.Proofs.Pipeline.Window

/-!
# How a standstill is reported

A run that has no room for more events does not fetch until its frontier moves. If the frontier
does not, because the element after it is never handled with success, that is reported: when the
run has tried in vain to fetch for the time set, and then each time this time has passed again.

A run remembers one frontier and one moment. What these come to is said here of everything that
happens: the fetches of a run are recorded with their times (`EventJournal.Tenancy.fetches`), and
those in vain since the last that found room make a *stretch* (`EventJournal.stretch`).

| a fetch | is reported |
|---|---|
| that finds room | not at all, and ends the stretch |
| that finds none, and is the first of its stretch | not |
| that finds none, later | if the time set has passed since the first, and since the last report |

Whether the frontier has moved need not be asked. The run is full at the first fetch of a stretch,
so there is room as soon as the frontier moves, and until the next fetch
(`EventJournal.PipelineRun.HeldAt`). And the run knows the event after its frontier, for it notes
its progress up to the frontier only, and has fetched beyond it
(`EventJournal.Tenancy.stall_reported_iff_due`).
-/

namespace EventJournal

/-! ### Fetches -/

/-- **A fetch**, as it was seen. -/
structure FetchCall where
  /-- When it was. -/
  time : Nat
  /-- For how many events there was room. -/
  room : Nat
  /-- Where the frontier was. -/
  frontier : Nat
  /-- What was reported. -/
  warnings : List Warning

/-- Whether a fetch was reported. -/
def FetchCall.warned (f : FetchCall) : Bool := !f.warnings.isEmpty

/-- **The latest fetches that found no room**, of fetches of which the latest stands first. -/
def stretch (calls : List FetchCall) : List FetchCall := calls.takeWhile (·.room = 0)

/-- The time of the first fetch of a stretch, or of the latest of it that was reported, whichever is
the later. -/
def since? (calls : List FetchCall) : Option Nat :=
  calls.getLast?.map fun first =>
    match calls.find? (·.warned) with
    | some reported => max first.time reported.time
    | none => first.time

/-- **A fetch that is to be reported**, when some fetches were before it: it finds no room, nor did
the one before, and the time set has passed since the first, and since the last report. -/
def FetchCall.Due (config : PipelineConfig) (earlier : List FetchCall) (f : FetchCall) : Prop :=
  f.room = 0 ∧ ∃ since, since? (stretch earlier) = some since ∧
    since + config.stallWarning ≤ f.time

section Stretch

variable {calls : List FetchCall} {f : FetchCall}

theorem stretch_cons_of_eq (h : f.room = 0) : stretch (f :: calls) = f :: stretch calls :=
  List.takeWhile_cons_of_pos (decide_eq_true h)

theorem stretch_cons_of_ne (h : f.room ≠ 0) : stretch (f :: calls) = [] :=
  List.takeWhile_cons_of_neg (by simpa using h)

theorem since?_eq_none_iff : since? calls = none ↔ calls = [] := by
  rw [since?, Option.map_eq_none_iff, List.getLast?_eq_none_iff]

/-- The moment is the time of a fetch. -/
theorem exists_of_since? {since : Nat} (h : since? calls = some since) :
    ∃ f ∈ calls, f.time = since := by
  obtain ⟨first, hfirst, rfl⟩ := Option.map_eq_some_iff.mp h
  have hmem := List.mem_of_getLast? hfirst
  split
  · next reported hreported =>
    rcases max_choice first.time reported.time with heq | heq
    · exact ⟨first, hmem, heq.symm⟩
    · exact ⟨reported, List.mem_of_find?_eq_some hreported, heq.symm⟩
  · exact ⟨first, hmem, rfl⟩

theorem since?_singleton (h : f.warned = false) : since? [f] = some f.time := by
  rw [since?, List.getLast?_singleton, Option.map_some, List.find?_cons_of_neg (by simp [h])]
  rfl

/-- A fetch that is not reported does not change the moment. -/
theorem since?_cons_of_quiet (hne : calls ≠ []) (h : f.warned = false) :
    since? (f :: calls) = since? calls := by
  rw [since?, List.find?_cons_of_neg (by simp [h]), List.getLast?_cons, since?]
  cases hlast : calls.getLast? with
  | none => exact absurd (List.getLast?_eq_none_iff.mp hlast) hne
  | some first => rfl

/-- A fetch that is reported is the moment from then on. -/
theorem since?_cons_of_warned (h : f.warned = true) (hle : ∀ g ∈ calls, g.time ≤ f.time) :
    since? (f :: calls) = some f.time := by
  rw [since?, List.find?_cons_of_pos h, List.getLast?_cons, Option.map_some]
  refine congrArg some (max_eq_right ?_)
  cases hlast : calls.getLast? with
  | none => exact le_rfl
  | some first => exact hle first (List.mem_of_getLast? hlast)

end Stretch

namespace PipelineRun

variable {r r' : PipelineRun} {since now : Nat}

/-! ### What a run remembers -/

/-- **A run that goes on** without a fetch. -/
structure GoesOn (r r' : PipelineRun) : Prop where
  /-- The settings. -/
  config : r'.config = r.config
  /-- The number of the last element. -/
  fetched : r'.fetched = r.fetched
  /-- What it remembers. -/
  heldSince : r'.heldSince = r.heldSince
  /-- The reports. -/
  stallWarnings : r'.stats.stallWarnings = r.stats.stallWarnings
  /-- The frontier does not go back. -/
  position_le : r.frontier.position ≤ r'.frontier.position

theorem GoesOn.refl (r : PipelineRun) : r.GoesOn r := ⟨rfl, rfl, rfl, rfl, le_rfl⟩

theorem goesOn_dispatch {e : Element} (hd : r.dispatch? = some (e, r')) : r.GoesOn r' := by
  rw [dispatch?] at hd
  split at hd
  · cases hd
    exact ⟨rfl, rfl, rfl, rfl, le_rfl⟩
  · cases hd

theorem goesOn_absorb (ha : r.absorb? = some r') : r.GoesOn r' := by
  rw [absorb?] at ha
  split at ha
  · next e rest _ =>
    cases ha
    exact ⟨rfl, rfl, rfl, rfl, r.frontier.position_le_finish e.number⟩
  · cases ha

theorem goesOn_absorbAll (r : PipelineRun) : r.GoesOn r.absorbAll :=
  ⟨rfl, rfl, rfl, rfl, position_le_foldl_finish _ _⟩

theorem goesOn_noted (r : PipelineRun) : r.GoesOn r.noted := ⟨rfl, rfl, rfl, rfl, le_rfl⟩

theorem goesOn_work (number : Nat) (outcome : Outcome) (r : PipelineRun) :
    r.GoesOn (r.work number outcome) := by
  have hsame := work_sameProgress number outcome r
  have hwatch : (r.work number outcome).heldSince = r.heldSince ∧
      (r.work number outcome).stats.stallWarnings = r.stats.stallWarnings := by
    rw [work]
    split
    · split <;> exact ⟨rfl, rfl⟩
    · exact ⟨rfl, rfl⟩
    · rw [announce]
      split <;> exact ⟨rfl, rfl⟩
    · exact ⟨rfl, rfl⟩
    · rw [count]
      refine ⟨rfl, ?_⟩
      dsimp only
      split <;> rfl
    · exact ⟨rfl, rfl⟩
  exact ⟨hsame.config, hsame.fetched, hwatch.1, hwatch.2, (congrArg _ hsame.frontier).ge⟩

/-- A batch does not change what is remembered. -/
theorem accept_watch (keyOf : Event → Uuid) (batch : List Event) (r : PipelineRun) :
    (r.accept keyOf batch).heldSince = r.heldSince ∧
      (r.accept keyOf batch).stats.stallWarnings = r.stats.stallWarnings := by
  have hfold : ∀ r : PipelineRun, (batch.foldl (acceptOne keyOf) r).heldSince = r.heldSince ∧
      (batch.foldl (acceptOne keyOf) r).stats = r.stats := by
    induction batch with
    | nil => exact fun r => ⟨rfl, rfl⟩
    | cons e rest ih => exact fun r => ih (r.acceptOne keyOf e)
  have hstats : (r.accept keyOf batch).stats.stallWarnings =
      (batch.foldl (acceptOne keyOf) r).stats.stallWarnings := rfl
  exact ⟨(hfold r).1, hstats.trans (congrArg Stats.stallWarnings (hfold r).2)⟩

/-- **What a run remembers** of the stretch of the latest fetches. If they found no room, it was
full, and is so as long as its frontier is where it was. -/
def HeldAt (calls : List FetchCall) (r : PipelineRun) : Prop :=
  match since? (stretch calls) with
  | none => r.heldSince = none
  | some since => ∃ frontier, r.heldSince = some (frontier, since) ∧
      (∀ f ∈ stretch calls, f.frontier = frontier) ∧ frontier ≤ r.frontier.position ∧
      r.fetched = frontier + r.config.maxInFlight

theorem HeldAt.goesOn {calls : List FetchCall} (h : r.HeldAt calls) (hr : r.GoesOn r') :
    r'.HeldAt calls := by
  unfold HeldAt at h ⊢
  split
  · next hnone =>
    rw [hnone] at h
    exact hr.heldSince.trans h
  · next since hsince =>
    rw [hsince] at h
    obtain ⟨frontier, hheld, hall, hle, hfetched⟩ := h
    refine ⟨frontier, hr.heldSince.trans hheld, hall, hle.trans hr.position_le, ?_⟩
    rw [hr.fetched, hr.config]
    exact hfetched

theorem heldAt_of_nil {calls : List FetchCall} (hcalls : stretch calls = []) :
    r.HeldAt calls ↔ r.heldSince = none := by
  rw [HeldAt, hcalls]
  rfl

/-- **A full run** has fetched as much as it may. -/
theorem fetched_eq_of_room (hle : r.frontier.position ≤ r.fetched)
    (hwindow : r.fetched ≤ r.frontier.position + r.config.maxInFlight) (hroom : r.room = 0) :
    r.fetched = r.frontier.position + r.config.maxInFlight := by
  rw [room, inFlight] at hroom
  omega

/-! ### A fetch that finds no room -/

/-- The report of a standstill. -/
def stall (since now : Nat) (r : PipelineRun) : Stall :=
  ⟨r.config.name, r.frontier.position, r.inFlight, now - since,
    r.known.get? (r.frontier.position + 1)⟩

theorem hold_of_none (h : r.heldSince = none) :
    r.hold now = ([], { r with heldSince := some (r.frontier.position, now) }) := by
  rw [hold, h]

theorem hold_of_some (h : r.heldSince = some (r.frontier.position, since)) :
    r.hold now =
      if r.config.stallWarning ≤ now - since then
        ([.stalled (r.stall since now)],
          { r with
            heldSince := some (r.frontier.position, now)
            stats := { r.stats with stallWarnings := r.stats.stallWarnings + 1 } })
      else ([], r) := by
  rw [hold, h]
  dsimp only
  rw [if_pos rfl]
  rfl

end PipelineRun

/-! ### What a loop remembers -/

/-- A loop that cannot fetch, because it is about to or has not begun. -/
def LoopState.isAway : LoopState → Bool
  | resuming _ | fetching _ => true
  | _ => false

namespace PipelineLoop

/-- **A loop that remembers the latest fetches.** -/
structure Attends (calls : List FetchCall) (l : PipelineLoop) : Prop where
  /-- What the run remembers. -/
  held : l.run.HeldAt calls
  /-- A batch is fetched only if there was room for it. -/
  away : l.state.isAway = true → stretch calls = []
  /-- A run that has not begun has reported nothing. -/
  fresh : ∀ search, l.state = .resuming search → l.run.stats.stallWarnings = 0

variable {calls : List FetchCall} {keyOf : Event → Uuid} {fault : Option StoreError}
  {s s' : Store} {w w' : Watch} {l l' : PipelineLoop} {now : Nat}

theorem attends_start (config : PipelineConfig) : (start config).Attends [] where
  held := rfl
  away _ := rfl
  fresh _ _ := rfl

theorem Attends.goesOn (h : l.Attends calls) (hrun : l.run.GoesOn l'.run)
    (hstate : l'.state = l.state ∨ l'.state.isAway = false) : l'.Attends calls := by
  refine ⟨h.held.goesOn hrun, fun haway => ?_, fun search hsearch => ?_⟩
  · rcases hstate with heq | hhome
    · exact h.away (heq ▸ haway)
    · exact absurd (hhome.symm.trans haway) Bool.false_ne_true
  · rcases hstate with heq | hhome
    · exact hrun.stallWarnings.trans (h.fresh search (heq.symm.trans hsearch))
    · rw [hsearch] at hhome
      cases hhome

theorem isAway_beginMarking (isLast : Bool) (l : PipelineLoop) :
    (l.beginMarking isLast).loop.state.isAway = false ∧
      (l.beginMarking isLast).loop.run = l.run := by
  rw [beginMarking]
  split
  · exact ⟨rfl, rfl⟩
  · cases isLast <;> exact ⟨rfl, rfl⟩

/-- **What a loop does without the store**, but for its fetches, does not touch what it
remembers. -/
theorem goesOn_react {move : LoopMove} (hmove : ∀ now, move ≠ .tick now) (l : PipelineLoop) :
    l.run.GoesOn (l.react move).run ∧
      ((l.react move).state = l.state ∨ (l.react move).state.isAway = false) := by
  have hreacts := l.reacts_react move
  generalize l.react move = l' at hreacts ⊢
  cases hreacts with
  | hold _ now | fetch _ now => exact absurd rfl (hmove now)
  | dispatch _ hrun => exact ⟨PipelineRun.goesOn_dispatch hrun, Or.inl rfl⟩
  | absorb _ hrun => exact ⟨PipelineRun.goesOn_absorb hrun, Or.inl rfl⟩
  | note _ hrun =>
    obtain ⟨hhome, heq⟩ := isAway_beginMarking false { l with run := _ }
    refine ⟨?_, Or.inr hhome⟩
    rw [heq]
    exact PipelineRun.goesOn_absorb hrun
  | stop | cease => exact ⟨.refl _, Or.inr rfl⟩
  | timeOut => exact ⟨⟨rfl, rfl, rfl, rfl, le_rfl⟩, Or.inr rfl⟩
  | close =>
    rw [PipelineLoop.close]
    dsimp only
    split
    · obtain ⟨hhome, heq⟩ := isAway_beginMarking true { l with run := l.run.absorbAll }
      refine ⟨?_, Or.inr hhome⟩
      rw [heq]
      exact l.run.goesOn_absorbAll
    · exact ⟨l.run.goesOn_absorbAll, Or.inr rfl⟩
  | idle => exact ⟨.refl _, Or.inl rfl⟩

/-- **A step of the loop's procedure** touches what it remembers only if a run begins or has
fetched, and then there is nothing to remember. -/
theorem Proceeds.attends (hproceeds : l.Proceeds keyOf fault s w l' s' w') (h : l.Attends calls) :
    l'.Attends calls ∧ l'.run.stats.stallWarnings = l.run.stats.stallWarnings := by
  cases hproceeds with
  | ask hs | seek hs =>
    have haway : l.state.isAway = true := by rw [hs]; rfl
    exact ⟨⟨h.held, fun _ => h.away haway, fun _ _ => h.fresh _ hs⟩, rfl⟩
  | begin hs =>
    have haway : l.state.isAway = true := by rw [hs]; rfl
    refine ⟨⟨?_, nofun, nofun⟩, (h.fresh _ hs).symm⟩
    exact (PipelineRun.heldAt_of_nil (h.away haway)).mpr rfl
  | refuse => exact ⟨h.goesOn (.refl _) (Or.inr rfl), rfl⟩
  | read hs =>
    have haway : l.state.isAway = true := by rw [hs]; rfl
    exact ⟨⟨h.held, fun _ => h.away haway, nofun⟩, rfl⟩
  | @fetch reading hs events =>
    have haway : l.state.isAway = true := by rw [hs]; rfl
    obtain ⟨hheld, hwarnings⟩ := l.run.accept_watch keyOf events
    have hnil := h.away haway
    refine ⟨⟨?_, nofun, nofun⟩, hwarnings⟩
    exact (PipelineRun.heldAt_of_nil hnil).mpr
      (hheld.trans ((PipelineRun.heldAt_of_nil hnil).mp h.held))
  | miss => exact ⟨h.goesOn (.refl _) (Or.inr rfl), rfl⟩
  | write => exact ⟨h.goesOn (.refl _) (Or.inr rfl), rfl⟩
  | @mark b marking isLast _ result =>
    have hhome : (l.marked isLast result).loop.state.isAway = false := by
      cases result <;> cases isLast <;> rfl
    have hrun : l.run.GoesOn (l.marked isLast result).loop.run := by
      cases result with
      | ok _ => cases isLast <;> exact l.run.goesOn_noted
      | error e => cases isLast <;> exact .refl _
    exact ⟨h.goesOn hrun (Or.inr hhome), hrun.stallWarnings⟩
  | idle => exact ⟨h, rfl⟩

/-! ### Fetches of a loop -/

/-- A fetch of a loop that serves. -/
def fetchCall (now : Nat) (l : PipelineLoop) : FetchCall :=
  ⟨now, l.run.room, l.run.frontier.position, (l.tick now).warnings⟩

/-- **What a fetch can be**, when others were before it. -/
inductive Ticks (calls : List FetchCall) (now : Nat) (l : PipelineLoop) : LoopTurn → Prop
  /-- There is room. -/
  | fetch (hroom : l.run.room ≠ 0) (reading : Reading) :
    Ticks calls now l { loop := ⟨l.run.release, .fetching reading⟩ }
  /-- There is no room, and there was before. -/
  | first (hroom : l.run.room = 0) (hcalls : stretch calls = []) :
    Ticks calls now l
      { loop := { l with run := { l.run with
          heldSince := some (l.run.frontier.position, now) } } }
  /-- There has been no room for the time set. -/
  | report (hroom : l.run.room = 0) {since : Nat} (hsince : since? (stretch calls) = some since)
    (hfrontier : ∀ f ∈ stretch calls, f.frontier = l.run.frontier.position)
    (hdue : since + l.run.config.stallWarning ≤ now) :
    Ticks calls now l
      { loop := { l with run := { l.run with
          heldSince := some (l.run.frontier.position, now)
          stats := { l.run.stats with stallWarnings := l.run.stats.stallWarnings + 1 } } }
        warnings := [.stalled (l.run.stall since now)] }
  /-- There is no room, but there may have been not long ago. -/
  | wait (hroom : l.run.room = 0) {since : Nat} (hsince : since? (stretch calls) = some since)
    (hfrontier : ∀ f ∈ stretch calls, f.frontier = l.run.frontier.position)
    (hearly : ¬since + l.run.config.stallWarning ≤ now) : Ticks calls now l { loop := l }

/-- **There is no other fetch.** -/
theorem Attends.ticks (h : l.Attends calls)
    (hle : l.run.frontier.position ≤ l.run.fetched)
    (hwindow : l.run.fetched ≤ l.run.frontier.position + l.run.config.maxInFlight)
    (htimes : ∀ f ∈ calls, f.time ≤ now) : l.Ticks calls now (l.tick now) := by
  rw [tick, PipelineRun.limit?]
  by_cases hroom : l.run.room = 0
  · rw [if_pos hroom]
    dsimp only
    have hheld := h.held
    unfold PipelineRun.HeldAt at hheld
    split at hheld
    · next hnone =>
      rw [PipelineRun.hold_of_none hheld]
      exact .first hroom (since?_eq_none_iff.mp hnone)
    · next since hsince =>
      obtain ⟨frontier, hheld, hall, hpos, hfetched⟩ := hheld
      -- the run was full when the stretch began, and is full now
      have hfull := PipelineRun.fetched_eq_of_room hle hwindow hroom
      obtain rfl : frontier = l.run.frontier.position := by omega
      obtain ⟨f, hf, rfl⟩ := exists_of_since? hsince
      have htime := htimes f ((List.takeWhile_sublist _).subset hf)
      rw [PipelineRun.hold_of_some hheld]
      split
      · exact .report hroom hsince hall (by omega)
      · exact .wait hroom hsince hall (by omega)
  · rw [if_neg hroom]
    exact .fetch hroom _

/-- What is remembered after a fetch. -/
theorem Ticks.attends {turn : LoopTurn} (hticks : l.Ticks calls now turn)
    (h : l.Attends calls) (hs : l.state = .serving) (hturn : l.tick now = turn)
    (hle : l.run.frontier.position ≤ l.run.fetched)
    (hwindow : l.run.fetched ≤ l.run.frontier.position + l.run.config.maxInFlight)
    (htimes : ∀ f ∈ calls, f.time ≤ now) : turn.loop.Attends (l.fetchCall now :: calls) := by
  have hwarned : (l.fetchCall now).warned = !turn.warnings.isEmpty := by rw [← hturn]; rfl
  have htimes' : ∀ f ∈ stretch calls, f.time ≤ now := fun f hf =>
    htimes f ((List.takeWhile_sublist _).subset hf)
  cases hticks with
  | fetch hroom =>
    have hnil : stretch (l.fetchCall now :: calls) = [] := stretch_cons_of_ne hroom
    exact ⟨(PipelineRun.heldAt_of_nil hnil).mpr rfl, fun _ => hnil, nofun⟩
  | first hroom hcalls =>
    have hfull := PipelineRun.fetched_eq_of_room hle hwindow hroom
    refine ⟨?_, fun haway => ?_, fun _ hresuming => ?_⟩
    · rw [PipelineRun.HeldAt, stretch_cons_of_eq hroom, hcalls, since?_singleton hwarned]
      exact ⟨_, rfl, List.forall_mem_singleton.mpr rfl, le_rfl, hfull⟩
    · cases (congrArg LoopState.isAway hs).symm.trans haway
    · cases hs.symm.trans hresuming
  | report hroom hsince hfrontier =>
    have hfull := PipelineRun.fetched_eq_of_room hle hwindow hroom
    refine ⟨?_, fun haway => ?_, fun _ hresuming => ?_⟩
    · rw [PipelineRun.HeldAt, stretch_cons_of_eq hroom, since?_cons_of_warned hwarned htimes']
      exact ⟨_, rfl, List.forall_mem_cons.mpr ⟨rfl, hfrontier⟩, le_rfl, hfull⟩
    · cases (congrArg LoopState.isAway hs).symm.trans haway
    · cases hs.symm.trans hresuming
  | wait hroom hsince hfrontier =>
    have hne : stretch calls ≠ [] := fun hnil => by
      rw [since?_eq_none_iff.mpr hnil] at hsince
      cases hsince
    refine ⟨?_, fun haway => ?_, h.fresh⟩
    · have hheld := h.held
      rw [PipelineRun.HeldAt, hsince] at hheld
      obtain ⟨frontier, hheld, hall, hpos, hfetched⟩ := hheld
      rw [PipelineRun.HeldAt, stretch_cons_of_eq hroom, since?_cons_of_quiet hne hwarned, hsince]
      have hfull := PipelineRun.fetched_eq_of_room hle hwindow hroom
      refine ⟨frontier, hheld, List.forall_mem_cons.mpr ⟨?_, hall⟩, hpos, hfetched⟩
      change l.run.frontier.position = frontier
      omega
    · cases (congrArg LoopState.isAway hs).symm.trans haway

/-- **A fetch is reported when it is due.** -/
theorem Ticks.due_iff {turn : LoopTurn} (hticks : l.Ticks calls now turn)
    (hturn : l.tick now = turn) :
    ((l.fetchCall now).Due l.run.config calls ∧
        turn.loop.run.stats.stallWarnings = l.run.stats.stallWarnings + 1 ∧
        ∃ since, since? (stretch calls) = some since ∧
          turn.warnings = [.stalled (l.run.stall since now)]) ∨
      ¬(l.fetchCall now).Due l.run.config calls ∧
        turn.loop.run.stats.stallWarnings = l.run.stats.stallWarnings ∧ turn.warnings = [] := by
  cases hticks with
  | fetch hroom => exact Or.inr ⟨fun hdue => hroom hdue.1, rfl, rfl⟩
  | first hroom hcalls =>
    refine Or.inr ⟨?_, rfl, rfl⟩
    rintro ⟨-, since, hsince, -⟩
    rw [hcalls] at hsince
    cases hsince
  | report hroom hsince hfrontier hdue =>
    exact Or.inl ⟨⟨hroom, _, hsince, hdue⟩, rfl, _, hsince, rfl⟩
  | wait hroom hsince hfrontier hearly =>
    refine Or.inr ⟨?_, rfl, rfl⟩
    rintro ⟨-, since, hsince', hdue⟩
    obtain rfl := Option.some.inj (hsince.symm.trans hsince')
    exact hearly hdue

end PipelineLoop

/-! ### Fetches of a pipeline -/

namespace Tenancy

/-- **What is there after a history** of moves, the latest of which stands first. -/
def after (name : String) : (history : List Move) → Tenancy
  | [] => start name
  | move :: earlier => (after name earlier).act move

/-- Whether a run begins with a move. -/
def begins (t : Tenancy) : Move → Bool
  | .launch config _ => decide (config.name = t.name ∧ config.fault? = none ∧ t.isIdle = true)
  | _ => false

/-- The fetch that a move is, if it is one. -/
def fetchCall? (t : Tenancy) : Move → Option FetchCall
  | .react (.tick now) =>
    match t.loop with
    | some ⟨run, .serving⟩ => some (PipelineLoop.fetchCall now ⟨run, .serving⟩)
    | _ => none
  | _ => none

/-- **The fetches of the latest run** in a history, the latest of which stands first. -/
def fetches (name : String) : (history : List Move) → List FetchCall
  | [] => []
  | move :: earlier =>
    if (after name earlier).begins move then []
    else ((after name earlier).fetchCall? move).toList ++ fetches name earlier

/-- The time that the clock of the loop shows when it ticks. -/
def Move.time? : Move → Option Nat
  | .react (.tick now) => some now
  | _ => none

/-- **A history in which time does not go back.** -/
def Timely (history : List Move) : Prop :=
  (history.filterMap Move.time?).Pairwise fun later earlier => earlier ≤ later

variable {name : String} {t : Tenancy} {l : PipelineLoop} {move : Move} {earlier : List Move}

theorem after_eq_run (name : String) (history : List Move) :
    after name history = (start name).run history.reverse := by
  induction history with
  | nil => rfl
  | cons move earlier ih =>
    rw [after, ih, run, run, List.reverse_cons, List.foldl_append]
    rfl

/-- A fetch is made when the clock ticks. -/
theorem time_of_fetchCall? {f : FetchCall} (h : t.fetchCall? move = some f) :
    move.time? = some f.time := by
  unfold fetchCall? at h
  split at h
  · split at h
    · obtain rfl := Option.some.inj h
      rfl
    · cases h
  · cases h

theorem time_of_mem_fetches {f : FetchCall} {history : List Move}
    (h : f ∈ fetches name history) : f.time ∈ history.filterMap Move.time? := by
  induction history with
  | nil => exact absurd h List.not_mem_nil
  | cons move earlier ih =>
    rw [fetches] at h
    split at h
    · exact absurd h List.not_mem_nil
    · rcases List.mem_append.mp h with hnow | hbefore
      · have htime := time_of_fetchCall? (Option.mem_toList.mp hnow)
        exact List.mem_filterMap.mpr ⟨move, List.mem_cons_self, htime⟩
      · obtain ⟨m, hm, htime⟩ := List.mem_filterMap.mp (ih hbefore)
        exact List.mem_filterMap.mpr ⟨m, List.mem_cons_of_mem _ hm, htime⟩

/-- Fetches are not later than the tick that follows them. -/
theorem Timely.le (h : Timely (move :: earlier)) {now : Nat} (hnow : move.time? = some now)
    {f : FetchCall} (hf : f ∈ fetches name earlier) : f.time ≤ now := by
  rw [Timely, List.filterMap_cons_some hnow, List.pairwise_cons] at h
  exact h.1 f.time (time_of_mem_fetches hf)

theorem Timely.tail (h : Timely (move :: earlier)) : Timely earlier := by
  rw [Timely, List.filterMap_cons] at h
  split at h
  · exact h
  · exact (List.pairwise_cons.mp h).2

variable {calls : List FetchCall} {l' : PipelineLoop}

/-- **What a move leaves of the loop**, when some fetches were before it. -/
inductive Leaves (calls : List FetchCall) (t : Tenancy) (move : Move) (l' : PipelineLoop) : Prop
  /-- A run has begun. -/
  | begins (hbegins : t.begins move = true) (config : PipelineConfig) (hl' : l' = .start config)
  /-- There was a fetch. -/
  | fetch (hbegins : t.begins move = false) {l : PipelineLoop} (hl : t.loop = some l) {now : Nat}
    (hfetch : t.fetchCall? move = some (l.fetchCall now)) (hl' : l' = (l.tick now).loop)
    (hticks : l.Ticks calls now (l.tick now)) (hattends : l'.Attends (l.fetchCall now :: calls))
  /-- There was no fetch. -/
  | other (hbegins : t.begins move = false) {l : PipelineLoop} (hl : t.loop = some l)
    (hfetch : t.fetchCall? move = none)
    (hwarnings : l'.run.stats.stallWarnings = l.run.stats.stallWarnings)
    (hattends : l'.Attends calls)

theorem leaves_tick {now : Nat} (hwindowed : t.Windowed) (hl : t.loop = some l)
    (hattends : l.Attends calls) (htimes : ∀ f ∈ calls, f.time ≤ now) :
    t.Leaves calls (.react (.tick now)) (l.react (.tick now)) := by
  obtain ⟨run, state⟩ := l
  cases state with
  | serving =>
    have hconfined := hwindowed.confined hl
    have hle : run.frontier.position ≤ run.fetched :=
      hconfined.fetched_eq ▸ hconfined.position_le
    have hwindow : run.fetched ≤ run.frontier.position + run.config.maxInFlight :=
      hconfined.fetched_eq ▸ hconfined.window
    have hticks := hattends.ticks hle hwindow htimes
    have hfetch : t.fetchCall? (.react (.tick now)) =
        some (PipelineLoop.fetchCall now ⟨run, .serving⟩) := by
      rw [fetchCall?, hl]
    exact .fetch rfl hl hfetch rfl hticks (hticks.attends hattends rfl rfl hle hwindow htimes)
  | _ =>
    have hfetch : t.fetchCall? (.react (.tick now)) = none := by
      rw [fetchCall?, hl]
    exact .other rfl hl hfetch rfl hattends

/-- **Whatever the move is**, it leaves the loop like this. -/
theorem leaves_act (hwindowed : t.Windowed) (h : ∀ l, t.loop = some l → l.Attends calls)
    (htimes : ∀ now, move.time? = some now → ∀ f ∈ calls, f.time ≤ now)
    (hl' : (t.act move).loop = some l') : t.Leaves calls move l' := by
  cases move with
  | call call =>
    have hloop : (t.act (.call call)).loop = t.loop := by
      rw [act]
      split <;> rfl
    rw [hloop] at hl'
    exact .other rfl hl' rfl rfl (h _ hl')
  | launch config keyOf =>
    rw [act] at hl'
    split at hl'
    · next hmay =>
      exact .begins (decide_eq_true hmay) config (Option.some.inj hl').symm
    · next hmay => exact .other (decide_eq_false hmay) hl' rfl rfl (h _ hl')
  | proceed fault =>
    cases hl : t.loop with
    | none =>
      simp only [act, hl] at hl'
      cases hl'
    | some l =>
      simp only [act, hl] at hl'
      obtain rfl := Option.some.inj hl'
      obtain ⟨hattends, hwarnings⟩ :=
        (l.proceeds_proceed t.keyOf fault t.store t.watch).attends (h l hl)
      exact .other rfl hl rfl hwarnings hattends
  | react move =>
    cases hl : t.loop with
    | none =>
      simp only [act, hl] at hl'
      cases hl'
    | some l =>
      simp only [act, hl] at hl'
      obtain rfl := Option.some.inj hl'
      by_cases hmove : ∃ now, move = .tick now
      · obtain ⟨now, rfl⟩ := hmove
        exact leaves_tick hwindowed hl (h l hl) (htimes now rfl)
      · obtain ⟨hrun, hstate⟩ := l.goesOn_react (not_exists.mp hmove)
        have hfetch : t.fetchCall? (.react move) = none := by
          cases move with
          | tick now => exact absurd ⟨now, rfl⟩ hmove
          | _ => rfl
        exact .other rfl hl hfetch hrun.stallWarnings ((h l hl).goesOn hrun hstate)
  | work number outcome =>
    cases hl : t.loop with
    | none =>
      simp only [act, hl] at hl'
      cases hl'
    | some l =>
      simp only [act, hl] at hl'
      obtain rfl := Option.some.inj hl'
      have hrun := PipelineRun.goesOn_work number outcome l.run
      exact .other rfl hl rfl hrun.stallWarnings ((h l hl).goesOn hrun (Or.inl rfl))
  | leave =>
    cases hl : t.loop with
    | none =>
      simp only [act, hl] at hl'
      cases hl'
    | some l =>
      simp only [act, hl] at hl'
      cases hl'

theorem windowed_after (name : String) (history : List Move) : (after name history).Windowed := by
  rw [after_eq_run]
  exact (windowed_start name).run _

/-- **The loop remembers the latest fetches**, whatever has happened. -/
theorem attends_after {history : List Move} (htimely : Timely history) {l : PipelineLoop}
    (hl : (after name history).loop = some l) : l.Attends (fetches name history) := by
  induction history generalizing l with
  | nil => cases hl
  | cons move earlier ih =>
    have hleaves := leaves_act (windowed_after name earlier) (fun _ => ih htimely.tail)
      (fun _ hnow _ => htimely.le hnow) hl
    rw [fetches]
    cases hleaves with
    | begins hbegins config hl' =>
      rw [if_pos hbegins, hl']
      exact PipelineLoop.attends_start config
    | fetch hbegins _ hfetch _ _ hattends =>
      rw [if_neg (Bool.eq_false_iff.mp hbegins), hfetch]
      exact hattends
    | other hbegins _ hfetch _ hattends =>
      rw [if_neg (Bool.eq_false_iff.mp hbegins), hfetch]
      exact hattends

/-! ### The event after the frontier -/

/-- **A pipeline that has fetched stored events only.** -/
structure Stocked (t : Tenancy) : Prop where
  /-- The indexes describe the events. -/
  coherent : t.store.events.Coherent
  /-- What was fetched is stored. -/
  fetched : ∀ e ∈ t.watch.fetched, e ∈ t.store.events.toList
  /-- So is what a fetch brings. -/
  reading : ∀ l reading, t.loop = some l → l.state = .fetching reading →
    reading.Brings (fun _ _ => True) fun events => ∀ e ∈ events, e ∈ t.store.events.toList

theorem stocked_start (name : String) : (start name).Stocked where
  coherent := EventTable.coherent_empty
  fetched e he := absurd he List.not_mem_nil
  reading l reading hl := by cases hl

/-- A fetch asks for stored events. -/
theorem brings_stored {s : Store} (hs : s.events.Coherent) {reading : Reading}
    (h : reading.Brings (fun _ _ => True) fun events => ∀ e ∈ events, e ∈ s.events.toList)
    (fault : Option StoreError) : (reading.next.step fault reading s).1.Brings (fun _ _ => True)
      fun events => ∀ e ∈ events, e ∈ s.events.toList := by
  refine h.step (fun position limit _ e he => ?_) fault
  rw [hs.after_eq] at he
  exact (List.mem_filter.mp (List.mem_of_mem_take he)).1

theorem Stocked.proceed (h : t.Stocked) (hl : t.loop = some l) {keyOf : Event → Uuid}
    {fault : Option StoreError} {s : Store} {w : Watch}
    (hproceeds : l.Proceeds keyOf fault t.store t.watch l' s w) :
    { t with loop := some l', store := s, watch := w }.Stocked := by
  have hevents := hproceeds.events_eq
  refine ⟨hevents ▸ h.coherent, fun e he => ?_, fun l'' reading hl'' hs => ?_⟩
  · change e ∈ s.events.toList
    rw [hevents]
    cases hproceeds with
    | fetch hs hr =>
      rcases List.mem_append.mp he with hold | hnew
      · exact h.fetched e hold
      · exact (h.reading l _ hl hs).of_result? (fun _ _ _ hx => absurd hx List.not_mem_nil)
          hr e hnew
    | _ => exact h.fetched e he
  · obtain rfl := Option.some.inj hl''
    change reading.Brings _ fun events => ∀ e ∈ events, e ∈ s.events.toList
    rw [hevents]
    cases hproceeds with
    | read hfetching =>
      cases hs
      exact brings_stored h.coherent (h.reading l _ hl hfetching) fault
    | idle => exact h.reading l reading hl hs
    | @mark b marking isLast _ result => cases result <;> cases isLast <;> cases hs
    | _ => cases hs

theorem Stocked.react (h : t.Stocked) (hl : t.loop = some l) (move : LoopMove) :
    { t with loop := some (l.react move), watch := t.watch.react move l }.Stocked := by
  have hfetched := t.watch.react_fetched move l
  refine ⟨h.coherent, fun e he => h.fetched e (hfetched ▸ he), fun l'' reading hl'' hs => ?_⟩
  obtain rfl := Option.some.inj hl''
  by_cases hmove : ∃ now, move = .tick now
  · obtain ⟨now, rfl⟩ := hmove
    have hreacts := l.reacts_react (.tick now)
    generalize l.react (.tick now) = l' at hreacts hs
    cases hreacts with
    | hold hserving => cases hserving.symm.trans hs
    | fetch =>
      cases hs
      trivial
    | idle => exact h.reading l reading hl hs
  · rcases (l.goesOn_react (not_exists.mp hmove)).2 with heq | hhome
    · exact h.reading l reading hl (heq ▸ hs)
    · rw [hs] at hhome
      cases hhome

theorem Stocked.act (h : t.Stocked) (move : Move) : (t.act move).Stocked := by
  have hacts := t.acts_act move
  generalize t.act move = t' at hacts ⊢
  cases hacts with
  | @call call =>
    refine ⟨call.perform_coherent h.coherent, fun e he => ?_, fun l reading hl hs => ?_⟩
    · exact Call.mem_perform call h.coherent (h.fetched e he)
    · exact (h.reading l reading hl hs).mono fun events hevents e he =>
        Call.mem_perform call h.coherent (hevents e he)
  | launch =>
    refine ⟨h.coherent, fun e he => absurd he List.not_mem_nil, fun l reading hl hs => ?_⟩
    obtain rfl := Option.some.inj hl
    cases hs
  | proceed hl hproceeds => exact h.proceed hl hproceeds
  | react hl move => exact h.react hl move
  | @work l hl number outcome =>
    refine ⟨h.coherent, h.fetched, fun l' reading hl' hs => ?_⟩
    obtain rfl := Option.some.inj hl'
    exact h.reading l reading hl hs
  | leave => exact ⟨h.coherent, h.fetched, fun l reading hl => nomatch hl⟩
  | idle => exact h

theorem stocked_after (name : String) (history : List Move) : (after name history).Stocked := by
  induction history with
  | nil => exact stocked_start name
  | cons move earlier ih => exact ih.act move

/-- **A run that serves and has no room** knows the event after its frontier. -/
theorem Windowed.next_eq (h : t.Windowed) (hl : t.loop = some l) (hs : l.state = .serving)
    (hroom : l.run.room = 0) :
    ∃ e, t.watch.fetched[l.run.frontier.position]? = some e ∧
      l.run.known.get? (l.run.frontier.position + 1) = some e.id := by
  have hw : t.watch.timedOut = false := by
    refine Bool.eq_false_iff.mpr fun hw => ?_
    have hover := (h.ended l hl hw).1
    rw [hs] at hover
    cases hover
  have hledger := (h.steady.exact l hl hw).ledger
  have hpos := (PipelineConfig.pos_of_fault? (h.valid hl hs)).2.2
  have hlt : l.run.frontier.position < t.watch.fetched.length := by
    rw [PipelineRun.room, PipelineRun.inFlight, hledger.fetched_eq] at hroom
    omega
  exact hledger.knows.exists_eq (Nat.lt_succ_of_le hledger.tight.start_le) hlt

/-! ### Reports are exact -/

/-- **A move that is a fetch**, when some were before it. -/
theorem exists_of_fetchCall? (hwindowed : t.Windowed) (h : ∀ l, t.loop = some l → l.Attends calls)
    (htimes : ∀ now, move.time? = some now → ∀ f ∈ calls, f.time ≤ now) {f : FetchCall}
    (hf : t.fetchCall? move = some f) :
    ∃ l, t.loop = some l ∧ l.state = .serving ∧ f = l.fetchCall f.time ∧
      (t.act move).loop = some (l.tick f.time).loop ∧ l.Ticks calls f.time (l.tick f.time) := by
  have htime := time_of_fetchCall? hf
  unfold fetchCall? at hf
  split at hf
  · next now =>
    obtain rfl : now = f.time := Option.some.inj htime
    split at hf
    · next run hl =>
      have hconfined := hwindowed.confined hl
      refine ⟨_, hl, rfl, (Option.some.inj hf).symm, ?_, ?_⟩
      · simp only [act, hl, PipelineLoop.react]
      · exact (h _ hl).ticks (hconfined.fetched_eq ▸ hconfined.position_le)
          (hconfined.fetched_eq ▸ hconfined.window) (htimes f.time htime)
    · cases hf
  · cases hf

/-- **What comes of a move**, so far as standstills are concerned. The latest run has fetched before
as `calls` say. -/
structure ReportsStall (calls : List FetchCall) (t : Tenancy) (move : Move) (t' : Tenancy) :
    Prop where
  /-- A fetch that is due is reported, once. -/
  due : ∀ f l l', t.fetchCall? move = some f → t.loop = some l → t'.loop = some l' →
    f.Due l.run.config calls →
    f.warned = true ∧ l'.run.stats.stallWarnings = l.run.stats.stallWarnings + 1
  /-- Another fetch is not. -/
  early : ∀ f l l', t.fetchCall? move = some f → t.loop = some l → t'.loop = some l' →
    ¬f.Due l.run.config calls →
    f.warned = false ∧ l'.run.stats.stallWarnings = l.run.stats.stallWarnings
  /-- Nothing else is. -/
  other : ∀ l l', t.fetchCall? move = none → t.begins move = false → t.loop = some l →
    t'.loop = some l' → l'.run.stats.stallWarnings = l.run.stats.stallWarnings
  /-- A run that has begun has reported nothing. -/
  begun : ∀ l', t.begins move = true → t'.loop = some l' → l'.run.stats.stallWarnings = 0
  /-- A report names the event after the frontier, which was fetched and is stored, and for how long
  there has been no room, or since the last report. -/
  named : ∀ f, t.fetchCall? move = some f → ∀ w ∈ f.warnings, ∃ l since e,
    t.loop = some l ∧ since? (stretch calls) = some since ∧
      t.watch.fetched[f.frontier]? = some e ∧ e ∈ t.store.events.toList ∧
      w = .stalled ⟨l.run.config.name, f.frontier, l.run.inFlight, f.time - since, some e.id⟩

/-- **Whatever the move is**, a standstill is reported as it should be. -/
theorem reportsStall_act (hwindowed : t.Windowed) (hstocked : t.Stocked)
    (h : ∀ l, t.loop = some l → l.Attends calls)
    (htimes : ∀ now, move.time? = some now → ∀ f ∈ calls, f.time ≤ now) :
    t.ReportsStall calls move (t.act move) where
  due f l l' hf hl hl' hdue := by
    obtain ⟨l₀, hl₀, -, hcall, hloop, hticks⟩ := exists_of_fetchCall? hwindowed h htimes hf
    obtain rfl := Option.some.inj (hl₀.symm.trans hl)
    obtain rfl := Option.some.inj (hloop.symm.trans hl')
    rw [hcall] at hdue ⊢
    rcases hticks.due_iff rfl with ⟨-, hcount, since, -, hwarnings⟩ | ⟨hnot, -⟩
    · exact ⟨by rw [FetchCall.warned, PipelineLoop.fetchCall, hwarnings]; rfl, hcount⟩
    · exact absurd hdue hnot
  early f l l' hf hl hl' hearly := by
    obtain ⟨l₀, hl₀, -, hcall, hloop, hticks⟩ := exists_of_fetchCall? hwindowed h htimes hf
    obtain rfl := Option.some.inj (hl₀.symm.trans hl)
    obtain rfl := Option.some.inj (hloop.symm.trans hl')
    rw [hcall] at hearly ⊢
    rcases hticks.due_iff rfl with ⟨hdue, -⟩ | ⟨-, hcount, hwarnings⟩
    · exact absurd hdue hearly
    · exact ⟨by rw [FetchCall.warned, PipelineLoop.fetchCall, hwarnings]; rfl, hcount⟩
  other l l' hnone hbegins hl hl' := by
    cases leaves_act hwindowed h htimes hl' with
    | begins hbegins' => cases hbegins.symm.trans hbegins'
    | fetch _ _ hfetch => cases hnone.symm.trans hfetch
    | other _ hl₀ _ hwarnings =>
      obtain rfl := Option.some.inj (hl₀.symm.trans hl)
      exact hwarnings
  begun l' hbegins hl' := by
    cases leaves_act hwindowed h htimes hl' with
    | begins _ config heq => exact heq ▸ rfl
    | fetch hbegins' | other hbegins' => cases hbegins.symm.trans hbegins'
  named f hf w hw := by
    obtain ⟨l, hl, hs, hcall, -, hticks⟩ := exists_of_fetchCall? hwindowed h htimes hf
    rw [hcall] at hw
    rcases hticks.due_iff rfl with ⟨hdue, -, since, hsince, hwarnings⟩ | ⟨-, -, hwarnings⟩
    · obtain ⟨e, he, hnext⟩ := hwindowed.next_eq hl hs hdue.1
      have hfrontier : f.frontier = l.run.frontier.position := by rw [hcall]; rfl
      refine ⟨l, since, e, hl, hsince, hfrontier ▸ he,
        hstocked.fetched e (List.mem_of_getElem? he), ?_⟩
      change w ∈ (l.tick f.time).warnings at hw
      rw [hwarnings, List.mem_singleton] at hw
      rw [hw, PipelineRun.stall, hnext, hfrontier]
    · change w ∈ (l.tick f.time).warnings at hw
      rw [hwarnings] at hw
      exact absurd hw List.not_mem_nil

/-- All fetches of a stretch have found the frontier at one place. -/
theorem same_frontier {r : PipelineRun} (h : r.HeldAt calls) {f g : FetchCall}
    (hf : f ∈ stretch calls) (hg : g ∈ stretch calls) : f.frontier = g.frontier := by
  unfold PipelineRun.HeldAt at h
  split at h
  · next hnone =>
    rw [since?_eq_none_iff.mp hnone] at hf
    exact absurd hf List.not_mem_nil
  · obtain ⟨frontier, -, hall, -⟩ := h
    exact (hall f hf).trans (hall g hg).symm

/-- **A standstill is reported exactly.** Whatever has happened to a pipeline, and whatever happens
next, as long as time does not go back: the frontier was at one place in all fetches of the latest
stretch, and a fetch is reported, once, if it is due and not otherwise; nothing else is. A report
names the event after the frontier. -/
theorem stall_reported_iff_due (name : String) {move : Move} {earlier : List Move} {t : Tenancy}
    (ht : after name earlier = t) (htimely : Timely (move :: earlier)) :
    t.ReportsStall (fetches name earlier) move (t.act move) ∧
      ∀ l', (t.act move).loop = some l' →
        ∀ f ∈ stretch (fetches name (move :: earlier)),
          ∀ g ∈ stretch (fetches name (move :: earlier)), f.frontier = g.frontier := by
  subst ht
  refine ⟨reportsStall_act (windowed_after name earlier) (stocked_after name earlier)
    (fun _ => attends_after htimely.tail) fun _ hnow _ => htimely.le hnow, ?_⟩
  intro l' hl' f hf g hg
  exact same_frontier (attends_after htimely hl').held hf hg

/-- The clock of a loop ticks. -/
def ticks (now : Nat) : Move := .react (.tick now)

/-- A history in which a run fetches one event of three, for it may not have more in flight, and
then waits for it. It is to report a standstill after ten milliseconds, and has, at the
fifteenth. -/
def waiting : List Move :=
  [ticks 24, ticks 15, ticks 14, ticks 5, .proceed none, .proceed none, ticks 0,
    .proceed none, .proceed none,
    .launch { name := "a", batchSize := 1, maxInFlight := 1, stallWarning := 10 } Event.id,
    .call (.commitEvents Sequence.events threeEvents)]

/-- The end of that history. -/
def waiter : Tenancy := after "a" waiting

theorem stall_reported_iff_due_waiter :
    (stretch (fetches "a" waiting)).map (·.time) = [24, 15, 14, 5] ∧
      waiter.loop.map (·.run.stats.stallWarnings) = some 1 ∧
      ((waiter.act (ticks 25)).loop.map (·.run.stats.stallWarnings)) = some 2 ∧
      waiter.ReportsStall (fetches "a" waiting) (ticks 25) (waiter.act (ticks 25)) := by
  have htimely : Timely (ticks 25 :: waiting) := by
    unfold Timely
    decide
  have hend : after "a" waiting = waiter := by rw [waiter]
  exact ⟨by decide +kernel, by decide +kernel, by decide +kernel,
    (stall_reported_iff_due "a" hend htimely).1⟩

end Tenancy

end EventJournal
