import EventJournal.Proofs.Pipeline.Exact

/-!
# A pipeline among the users of a store

A pipeline is run on a store that it shares with others (`EventJournal.Tenancy`). What they ask of
the store is left open, as long as they use the counter of the rows for what it is for and store
no rows under the name of the pipeline while it runs (`EventJournal.Tenancy.admits`); so they may
be writers, readers, and pipelines of other names, and earlier runs of this one. A run begins,
does what it does in any order, and ends or is left, and another may begin.

When a run that was stopped has not given up on its elements, it has handled all that it has
fetched, and the latest row names the last event up to which all were handled with success
(`EventJournal.Tenancy.final_row`). That it did not get to store earlier rows does not matter, as
long as it could store the last. What *handled with success* means is read off the moves: a handler
returns with the outcome of the move at which its worker goes on while it runs, and what the run
counts in the end is that.
-/

namespace EventJournal

/-- **A pipeline on a store that it shares.** -/
structure Tenancy where
  /-- The name of the pipeline. -/
  name : String
  /-- The store. -/
  store : Store
  /-- The loop of the latest run, unless the run was left. -/
  loop : Option PipelineLoop
  /-- The key of an event in the latest run. -/
  keyOf : Event → Uuid
  /-- What was seen of the latest run. -/
  watch : Watch

namespace Tenancy

/-- **What can happen next.** -/
inductive Move
  /-- Another user of the store makes a call. -/
  | call (call : Call)
  /-- A run begins. -/
  | launch (config : PipelineConfig) (keyOf : Event → Uuid)
  /-- The loop takes a step of the procedure that it is at, the call of which may fail. -/
  | proceed (fault : Option StoreError)
  /-- The loop does something without the store. -/
  | react (move : LoopMove)
  /-- The worker of the element with a number goes on; if the handler runs, it returns with the
  outcome. -/
  | work (number : Nat) (outcome : Outcome)
  /-- The run is left, whatever it is at. -/
  | leave

/-- A pipeline that was never run, on an empty store. -/
def start (name : String) : Tenancy where
  name := name
  store := .empty
  loop := none
  keyOf := Event.stream
  watch := {}

/-- Whether a run may begin. -/
def isIdle (t : Tenancy) : Bool := t.loop.all (·.isEnded)

/-- **Whether another user may make a call**: rows are stored under the name of the pipeline only
by its run, if there is one. -/
def admits (t : Tenancy) (call : Call) : Bool :=
  call.isFair t.store && (t.loop.isNone || !call.storesRow t.name)

/-- The loop `l` takes a step of the procedure that it is at. -/
def proceed (fault : Option StoreError) (l : PipelineLoop) (t : Tenancy) : Tenancy :=
  let (loop, store) := l.proceed t.keyOf fault t.store
  { t with loop := some loop, store, watch := t.watch.proceed l t.store }

/-- **One move**, if it is possible; otherwise nothing happens. -/
def act (move : Move) (t : Tenancy) : Tenancy :=
  match move, t.loop with
  | .call call, _ => if t.admits call then { t with store := (call.perform t.store).2 } else t
  | .launch config keyOf, _ =>
    if config.name = t.name ∧ config.fault? = none ∧ t.isIdle then
      { t with loop := some (.start config), keyOf, watch := {} }
    else t
  | .proceed fault, some l => t.proceed fault l
  | .react move, some l => { t with loop := some (l.react move), watch := t.watch.react move l }
  | .work number outcome, some l =>
    { t with loop := some (l.work number outcome), watch := t.watch.work number outcome l }
  | .leave, some _ => { t with loop := none }
  | _, none => t

/-- **What can come of a move.** -/
inductive Acts (t : Tenancy) : Move → Tenancy → Prop
  /-- Another user makes a call. -/
  | call {call : Call} (hadmits : t.admits call = true) :
    Acts t (.call call) { t with store := (call.perform t.store).2 }
  /-- A run begins. -/
  | launch {config : PipelineConfig} (keyOf : Event → Uuid) (hname : config.name = t.name)
    (hvalid : config.fault? = none) (hidle : t.isIdle = true) :
    Acts t (.launch config keyOf) { t with loop := some (.start config), keyOf, watch := {} }
  /-- The loop takes a step of its procedure. -/
  | proceed {l l' : PipelineLoop} (hl : t.loop = some l) {fault : Option StoreError} {s : Store}
    {w : Watch} (hproceeds : l.Proceeds t.keyOf fault t.store t.watch l' s w) :
    Acts t (.proceed fault) { t with loop := some l', store := s, watch := w }
  /-- The loop does something without the store. -/
  | react {l : PipelineLoop} (hl : t.loop = some l) (move : LoopMove) :
    Acts t (.react move) { t with loop := some (l.react move), watch := t.watch.react move l }
  /-- A worker goes on. -/
  | work {l : PipelineLoop} (hl : t.loop = some l) (number : Nat) (outcome : Outcome) :
    Acts t (.work number outcome)
      { t with loop := some (l.work number outcome), watch := t.watch.work number outcome l }
  /-- The run is left. -/
  | leave {l : PipelineLoop} (hl : t.loop = some l) : Acts t .leave { t with loop := none }
  /-- The move is not possible. -/
  | idle {move : Move} (hnone : ∀ fault, move = .proceed fault → t.loop = none) : Acts t move t

/-- **Whatever the move is**, one of these comes of it. -/
theorem acts_act (move : Move) (t : Tenancy) : t.Acts move (t.act move) := by
  unfold act
  split
  · split
    · next hadmits => exact .call hadmits
    · exact .idle fun _ hmove => nomatch hmove
  · split
    · next hmay => exact .launch _ hmay.1 hmay.2.1 hmay.2.2
    · exact .idle fun _ hmove => nomatch hmove
  · next hl => exact .proceed hl (PipelineLoop.proceeds_proceed _ _ _ _ _)
  · next hl => exact .react hl _
  · next hl => exact .work hl _ _
  · next hl => exact .leave hl
  · next hl => exact .idle fun _ _ => hl

/-- What the latest run has returned, if it has ended well. -/
def returned? (t : Tenancy) : Option Stats :=
  match t.loop with
  | some ⟨_, .ended (.ok stats)⟩ => some stats
  | _ => none

/-- A history of moves. -/
def run (moves : List Move) (t : Tenancy) : Tenancy := moves.foldl (fun t m => t.act m) t

/-! ### The invariant -/

/-- **The invariant.** -/
structure Steady (t : Tenancy) : Prop where
  /-- The rows and their counter. -/
  rows : t.store.RowsCounted
  /-- The row that is being stored, if there is one. -/
  placed : ∀ l, t.loop = some l → l.Placed t.name t.store
  /-- The run is exact, unless it has given up on its elements. -/
  exact : ∀ l, t.loop = some l → t.watch.timedOut = false →
    l.Exact t.keyOf t.name t.store t.watch

theorem steady_start (name : String) : (start name).Steady where
  rows := nofun
  placed l hl := by cases hl
  exact l hl := by cases hl

variable {t : Tenancy}

theorem Steady.call (h : t.Steady) {call : Call} (hadmits : t.admits call = true) :
    { t with store := (call.perform t.store).2 }.Steady := by
  rw [admits, Bool.and_eq_true] at hadmits
  obtain ⟨hfair, hother⟩ := hadmits
  have hspares : ∀ l, t.loop = some l → t.store.Spares t.name (call.perform t.store).2 := by
    intro l hl
    refine Call.spares_of_isFair hfair ?_
    simpa [hl] using hother
  refine ⟨Call.rowsCounted_of_isFair hfair h.rows, fun l hl => ?_, fun l hl hw => ?_⟩
  · exact (h.placed l hl).mono (hspares l hl)
  · exact (h.exact l hl hw).mono (hspares l hl).latestCheckpoint_eq

/-- **Whatever happens next.** -/
theorem Steady.act (h : t.Steady) (move : Move) : (t.act move).Steady := by
  have hacts := t.acts_act move
  generalize t.act move = t' at hacts ⊢
  cases hacts with
  | call hadmits => exact h.call hadmits
  | launch keyOf hname hvalid hidle =>
    refine ⟨h.rows, fun l hl => ?_, fun l hl _ => ?_⟩
    · cases hl
      exact hname ▸ PipelineLoop.placed_start _ t.store
    · cases hl
      exact hname ▸ PipelineLoop.exact_start keyOf hvalid t.store
  | proceed hl hproceeds =>
    obtain ⟨hplaced, hrows⟩ := hproceeds.placed (h.placed _ hl) h.rows
    refine ⟨hrows, fun l hl' => ?_, fun l hl' hw => ?_⟩
    · cases hl'
      exact hplaced
    · cases hl'
      have hexact := h.exact _ hl (hproceeds.timedOut_eq.symm.trans hw)
      exact hproceeds.exact hexact (h.placed _ hl) h.rows
  | react hl move =>
    refine ⟨h.rows, fun l hl' => ?_, fun l hl' hw => ?_⟩
    · cases hl'
      exact (h.placed _ hl).react move
    · cases hl'
      exact (h.exact _ hl (Watch.timedOut_of_react hw)).react hw
  | work hl number outcome =>
    refine ⟨h.rows, fun l hl' => ?_, fun l hl' hw => ?_⟩
    · cases hl'
      exact (h.placed _ hl).work number outcome
    · cases hl'
      exact (h.exact _ hl hw).work number outcome
  | leave hl =>
    refine ⟨h.rows, fun l hl' => ?_, fun l hl' => ?_⟩
    · cases hl'
    · cases hl'
  | idle => exact h

/-- **Whatever happens**, in any order. -/
theorem Steady.run (h : t.Steady) (moves : List Move) : (t.run moves).Steady := by
  induction moves generalizing t with
  | nil => exact h
  | cons move rest ih => exact ih (h.act move)

/-- The name stays. -/
theorem act_name (move : Move) (t : Tenancy) : (t.act move).name = t.name := by
  have hacts := t.acts_act move
  generalize t.act move = t' at hacts ⊢
  cases hacts <;> rfl

theorem run_name (moves : List Move) (t : Tenancy) : (t.run moves).name = t.name := by
  induction moves generalizing t with
  | nil => rfl
  | cons move rest ih => exact (ih (t.act move)).trans (act_name move t)

/-! ### The last row -/

theorem returned?_eq_some {stats : Stats} (h : t.returned? = some stats) :
    ∃ l, t.loop = some l ∧ l.state = .ended (.ok stats) := by
  rw [returned?] at h
  split at h
  · next run result hloop =>
    cases h
    exact ⟨_, hloop, rfl⟩
  · exact nomatch h

/-- **The last row of a run is exact.** Whatever has happened before and meanwhile: if a run has
ended after it was stopped, has not given up on its elements, and the last row that it tried to
write, if any, was stored, then it has handled each element that it has fetched, once; what it has
counted are the outcomes with which the handlers have returned; and the latest row of the pipeline
names the last event up to which all were handled with success. If there is none, it is the row
that the run took up. -/
theorem final_row {name : String} {moves : List Move} {stats : Stats}
    (ht : (start name).run moves = t) (hreturned : t.returned? = some stats)
    (hsettled : t.watch.timedOut = false) (hstored : t.watch.lastWrite ≠ some false) :
    stats.processed + stats.failed = stats.fetched ∧
      stats.fetched = t.watch.fetched.length ∧
      (t.watch.counted.map (·.1)).Perm (numbered t.keyOf t.watch.fetched) ∧
      t.watch.returned.Perm t.watch.counted ∧
      ∃ p, (∀ n, 0 < n → n ≤ p → t.watch.Succeeded n) ∧ ¬t.watch.Succeeded (p + 1) ∧
        t.watch.Names name t.store p := by
  obtain ⟨l, hl, hs⟩ := returned?_eq_some hreturned
  have hsteady := (steady_start name).run moves
  have hname := run_name moves (start name)
  rw [ht] at hsteady hname
  have hexact := hsteady.exact l hl hsettled
  have hfits := hexact.fits
  rw [hs] at hfits
  obtain ⟨rfl, hcounted, hprocessed, hlength⟩ := hfits
  obtain ⟨-, hassigned, hperm⟩ := hexact.ledger.of_length_eq hcounted
  have hreturns : t.watch.returned.Perm t.watch.counted :=
    hexact.returned_perm.trans (.of_eq (PipelineRun.outcomes_eq_counted hassigned _))
  have hsucceeded : ∀ n, 0 < n → (l.run.frontier.Finished n ↔ t.watch.Succeeded n) :=
    fun n hn => hexact.ledger.finished_iff hassigned hprocessed hn
  -- the frontier has not moved since the last row was stored
  have hstart : l.run.frontier.start = l.run.frontier.position :=
    Nat.le_antisymm hexact.ledger.tight.start_le (Nat.le_of_sub_eq_zero (hlength hstored))
  refine ⟨?_, hexact.stats_fetched, hperm, hreturns, l.run.frontier.position, ?_, ?_, ?_⟩
  · rw [hexact.stats_fetched, ← hcounted]
    exact hexact.ledger.settled_eq
  · exact fun n hn hle => (hsucceeded n hn).mp (Or.inl hle)
  · exact fun h => hexact.ledger.tight.not_finished_succ ((hsucceeded _ (Nat.succ_pos _)).mpr h)
  · have hnames := hexact.names (by simp [hs])
    have hnoted := PipelineLoop.noted_of_not_marking (congrArg LoopState.isMarking hs)
    rw [hnoted, hstart, hname] at hnames
    exact hnames

/-- Three events at the beginning of a log. -/
def threeEvents : List Event :=
  Draft.placeAll (.ofNat 7) 0 1 ([1, 2, 3].map fun n => .ofBytes (.ofNat n) .epoch "" [])

/-- The handling of the element with a number, after it was dispatched. -/
def handles (number : Nat) (outcome : Outcome) : List Move :=
  List.replicate 5 (.work number outcome)

/-- A history in which a run handles the third of three events first, fails at the second, cannot
store its first row, is stopped, and stores its last. -/
def troubled : List Move :=
  List.flatten
    [[.call (.commitEvents Sequence.events threeEvents),
      .launch { name := "a", checkpointThreshold := 1 } Event.id, .proceed none, .proceed none,
      .react (.tick 0), .proceed none, .proceed none,
      .react .dispatch, .react .dispatch, .react .dispatch],
    handles 3 .succeeded, handles 1 .succeeded,
    [.react .absorb, .react .absorb, .proceed (some (.unavailable "closed")), .proceed none,
      .react .stop],
    handles 2 .failed,
    [.react .cease, .react .close], List.replicate 8 (.proceed none)]

/-- The end of that history. -/
def survivor : Tenancy := (start "a").run troubled

theorem final_row_troubled :
    survivor.returned? = some { fetched := 3, processed := 2, failed := 1, checkpoints := 1 } ∧
      survivor.watch.fetched = threeEvents ∧
      survivor.watch.returned.map (fun c => (c.1.number, c.2)) =
        [(3, .succeeded), (1, .succeeded), (2, .failed)] ∧
      survivor.watch.returned.Perm survivor.watch.counted ∧
      ∃ p, (∀ n, 0 < n → n ≤ p → survivor.watch.Succeeded n) ∧
        ¬survivor.watch.Succeeded (p + 1) ∧ survivor.watch.Names "a" survivor.store p := by
  have hreturned : survivor.returned? =
      some { fetched := 3, processed := 2, failed := 1, checkpoints := 1 } := by decide +kernel
  have hsettled : survivor.watch.timedOut = false := by decide +kernel
  have hstored : survivor.watch.lastWrite ≠ some false := by decide +kernel
  have hfetched : survivor.watch.fetched = threeEvents := by decide +kernel
  have hend : (start "a").run troubled = survivor := by rw [survivor]
  obtain ⟨-, -, -, hcounted, hrow⟩ := final_row hend hreturned hsettled hstored
  exact ⟨hreturned, hfetched, by decide +kernel, hcounted, hrow⟩

end Tenancy

end EventJournal
