import EventJournal.Log.Append
import EventJournal.Proofs.Pipeline.Ascent

/-!
# How often a pipeline notes its progress

The frontier of a run can move on by any number of elements at a time, when the gap before them is
closed. The loop looks at it each time, and notes its progress as soon as it has come as far as the
settings say since it was noted last. So whatever happens to a pipeline, over all of its runs:

| the rows of the pipeline | since |
|---|---|
| go up the log | a row names an event beyond that of the latest |
| are not too close | the loop does not begin to write one before the frontier has come far enough |
| are not too far apart | the loop does not go on serving when the frontier has |

The last row of a run is an exception to the second: when a run is stopped, it notes what it has
come to. A run that has given up on its elements does so as well
(`EventJournal.PipelineLoop.GivenUp`), though its ledger is lost. The third holds as long as the
rows can be written. If one cannot, the frontier moves on, and the next row is the farther from the
one before.
-/

namespace EventJournal

/-! ### Runs that have given up on their elements -/

/-- What a loop can be at when it has given up on its elements. -/
def LoopState.GivenUp (r : PipelineRun) : LoopState → Prop
  | closing | ended _ => True
  | marking b _ isLast => isLast = true ∧ r.reached? = some b.event ∧ 0 < r.frontier.length
  | _ => False

namespace PipelineLoop

/-- **A run that has given up on its elements** still knows which event it may note. -/
structure GivenUp (name : String) (s : Store) (w : Watch) (l : PipelineLoop) : Prop where
  /-- What the loop is at. -/
  state : l.state.GivenUp l.run
  /-- The events of the numbers. -/
  knows : l.run.Knows w.fetched
  /-- The latest row. -/
  names : w.Names name s l.noted

variable {keyOf : Event → Uuid} {name : String} {fault : Option StoreError} {s s' : Store}
  {w w' : Watch} {l l' : PipelineLoop}

/-- **The loop gives up on its elements.** -/
theorem Exact.givenUp (h : l.Exact keyOf name s w) (hs : l.state = .draining)
    (spared : Assignment → Bool) :
    (l.timeOut spared).loop.GivenUp name s { w with timedOut := true } where
  state := trivial
  knows := ⟨h.ledger.known_eq, h.ledger.tight⟩
  names := h.names_start (Or.inr (Or.inl hs))

theorem GivenUp.mono (h : l.GivenUp name s w)
    (hlatest : s'.latestCheckpoint name = s.latestCheckpoint name) : l.GivenUp name s' w :=
  ⟨h.state, h.knows, h.names.mono hlatest⟩

theorem GivenUp.marks (h : l.GivenUp name s w) {b : Bookmark} {marking : Marking} {isLast : Bool}
    (hs : l.state = .marking b marking isLast) : l.Marks w b := by
  have hstate := h.state
  rw [hs] at hstate
  obtain ⟨-, hreached, hlength⟩ := hstate
  obtain ⟨e, he, hid⟩ := h.knows.getElem?_eq hreached
  exact ⟨Nat.lt_of_sub_pos hlength, e, he, hid.symm⟩

/-- The run is closed: it notes its progress, if there is any. -/
theorem GivenUp.close (h : l.GivenUp name s w) (hs : l.state = .closing) :
    l.close.loop.GivenUp name s w := by
  have hknows := h.knows.absorbAll
  have hnames : w.Names name s l.run.absorbAll.frontier.start := by
    have hnames := h.names
    rw [noted_of_not_marking (congrArg LoopState.isMarking hs)] at hnames
    -- what waits to be counted moves the end of the stretch, and not its start
    change w.Names name s (Frontier.start (l.run.processed.foldl _ _))
    rw [(PipelineRun.tight_foldl_finish h.knows.tight l.run.processed).2]
    exact hnames
  rw [PipelineLoop.close]
  dsimp only
  split
  · next hlength =>
    rw [PipelineLoop.beginMarking]
    split
    · next event hevent => exact ⟨⟨rfl, hevent, hlength⟩, hknows, hnames⟩
    · exact ⟨trivial, hknows, hnames⟩
  · exact ⟨trivial, hknows, hnames⟩

/-- **Whatever the loop does without the store**: of all that there is to do it can only close. -/
theorem GivenUp.react (h : l.GivenUp name s w) (move : LoopMove) :
    (l.react move).GivenUp name s (w.react move l) := by
  have hstate := h.state
  obtain ⟨run, state⟩ := l
  cases state with
  | closing =>
    cases move with
    | close => exact h.close rfl
    | _ => exact h
  | marking | ended => cases move <;> exact h
  | _ => exact absurd hstate id

/-- Workers that were spared go on. -/
theorem GivenUp.work (h : l.GivenUp name s w) (number : Nat) (outcome : Outcome) :
    (l.work number outcome).GivenUp name s (w.work number outcome l) := by
  have hsame := PipelineRun.work_sameProgress number outcome l.run
  refine ⟨?_, ⟨?_, ?_⟩, ?_⟩
  · have hstate := h.state
    change l.state.GivenUp (l.run.work number outcome)
    cases hs : l.state with
    | marking b marking isLast =>
      rw [hs] at hstate
      refine ⟨hstate.1, hsame.reached?.trans hstate.2.1, ?_⟩
      rw [hsame.frontier]
      exact hstate.2.2
    | closing | ended => trivial
    | _ =>
      rw [hs] at hstate
      exact absurd hstate id
  · intro n
    change (l.run.work number outcome).known.get? n =
      if (l.run.work number outcome).frontier.start < n then _ else _
    rw [hsame.known, hsame.frontier]
    exact h.knows.known_eq n
  · change (l.run.work number outcome).frontier.Tight
    rw [hsame.frontier]
    exact h.knows.tight
  · have hnoted : (l.work number outcome).noted = l.noted := by
      rw [noted, PipelineLoop.work, hsame.frontier]
      rfl
    rw [hnoted]
    exact h.names

/-- **A step of the loop's procedure**, perhaps a failing one. -/
theorem Proceeds.givenUp (hproceeds : l.Proceeds keyOf fault s w l' s' w')
    (h : l.GivenUp name s w) (hplaced : l.Placed name s) (hs : s.RowsCounted) :
    l'.GivenUp name s' w' := by
  have hstate := h.state
  cases hproceeds with
  | ask hl | seek hl | begin hl | refuse hl | read hl | fetch hl | miss hl =>
    rw [hl] at hstate
    exact absurd hstate id
  | @write b marking isLast hl hr =>
    rw [hl] at hstate
    obtain ⟨rfl, hreached, hlength⟩ := hstate
    obtain ⟨hname, hplace⟩ := hplaced.marking b marking true hl
    have hnames := h.names
    rw [noted_of_not_isStored hl (marking.not_isStored_of_none hr)] at hnames
    rw [← hname] at hplace
    exact ⟨⟨rfl, hreached, hlength⟩, h.knows,
      (h.marks hl).names hname hnames (hplace.step hs hr fault) true⟩
  | @mark b marking isLast hl result hr =>
    rw [hl] at hstate
    obtain ⟨rfl, -⟩ := hstate
    have hnames := h.names
    cases result with
    | ok _ =>
      rw [noted_of_isStored hl (marking.isStored_of_ok hr)] at hnames
      exact ⟨trivial, h.knows.noted, hnames⟩
    | error e =>
      rw [noted_of_not_isStored hl (marking.not_isStored_of_error hr)] at hnames
      exact ⟨trivial, h.knows, hnames⟩
  | idle => exact h

end PipelineLoop

/-! ### Keeping up with the frontier -/

/-- **What a loop is at keeps up with the frontier**: while it serves, the frontier has not come far
enough for a row, unless the last row could not be written; and when it writes one, it has. -/
def LoopState.KeepsUp (lastWrite : Option Bool) (r : PipelineRun) : LoopState → Prop
  | serving | fetching _ =>
    lastWrite ≠ some false → r.frontier.length < r.config.checkpointThreshold
  | marking _ _ false => r.config.checkpointThreshold ≤ r.frontier.length
  | _ => True

/-- **A loop that keeps up with its frontier.** -/
structure PipelineLoop.KeepsUp (w : Watch) (l : PipelineLoop) : Prop where
  /-- Progress is not noted without any. -/
  threshold_pos : 0 < l.run.config.checkpointThreshold
  /-- What the loop is at. -/
  state : l.state.KeepsUp w.lastWrite l.run

namespace PipelineLoop

variable {keyOf : Event → Uuid} {name : String} {fault : Option StoreError} {s s' : Store}
  {w w' : Watch} {l l' : PipelineLoop}

theorem keepsUp_start {config : PipelineConfig} (h : config.fault? = none) :
    (start config).KeepsUp {} :=
  ⟨(PipelineConfig.pos_of_fault? h).2.1, trivial⟩

/-- The loop comes to another thing. -/
theorem KeepsUp.goTo (h : l.KeepsUp w) {state : LoopState}
    (hstate : state.KeepsUp w.lastWrite l.run) : (l.goTo state).KeepsUp w :=
  ⟨h.threshold_pos, hstate⟩

/-- The run goes on, and its frontier stays where it is. -/
theorem KeepsUp.withRun (h : l.KeepsUp w) {run : PipelineRun} (hconfig : run.config = l.run.config)
    (hfrontier : run.frontier = l.run.frontier) : { l with run }.KeepsUp w := by
  refine ⟨?_, ?_⟩
  · rw [hconfig]
    exact h.threshold_pos
  · have hstate := h.state
    change l.state.KeepsUp w.lastWrite run
    cases hs : l.state with
    | serving | fetching reading =>
      rw [hs] at hstate
      intro hwrite
      rw [hconfig, hfrontier]
      exact hstate hwrite
    | marking b marking isLast =>
      rw [hs] at hstate
      cases isLast with
      | false =>
        change run.config.checkpointThreshold ≤ run.frontier.length
        rw [hconfig, hfrontier]
        exact hstate
      | true => trivial
    | _ => trivial

/-- **The loop hears of a success**, and there is no row to write if it is not far enough. -/
theorem KeepsUp.absorb (h : l.KeepsUp w) (hs : l.state = .serving ∨ l.state = .draining)
    {run : PipelineRun} (hrun : l.run.absorb? = some run)
    (hearly : l.state = .serving → run.isDue = false) : { l with run }.KeepsUp w := by
  obtain ⟨hconfig, -⟩ := PipelineRun.absorb?_frame hrun
  refine ⟨?_, ?_⟩
  · rw [hconfig]
    exact h.threshold_pos
  · change l.state.KeepsUp w.lastWrite run
    rcases hs with hs | hs
    · have hlt := Nat.lt_of_not_le (of_decide_eq_false (hearly hs))
      rw [hs]
      exact fun _ => hlt
    · rw [hs]
      trivial

/-- **The frontier has come far enough**, so that there is an event to name in a row. -/
theorem KeepsUp.note (h : l.KeepsUp w) (hexact : l.Exact keyOf name s w) {run : PipelineRun}
    (hrun : l.run.absorb? = some run) (hdue : run.isDue = true) :
    ({ l with run }.beginMarking false).loop.KeepsUp w := by
  obtain ⟨hconfig, -⟩ := PipelineRun.absorb?_frame hrun
  have hpos : 0 < run.config.checkpointThreshold := by
    rw [hconfig]
    exact h.threshold_pos
  have hle : run.config.checkpointThreshold ≤ run.frontier.length := of_decide_eq_true hdue
  obtain ⟨e, -, hreached⟩ := (hexact.ledger.absorb hrun).reached_eq (hpos.trans_le hle)
  simp only [PipelineLoop.beginMarking, hreached]
  exact ⟨hpos, hle⟩

theorem KeepsUp.close (h : l.KeepsUp w) : l.close.loop.KeepsUp w := by
  rw [PipelineLoop.close]
  dsimp only
  split
  · rw [PipelineLoop.beginMarking]
    split <;> exact ⟨h.threshold_pos, trivial⟩
  · exact ⟨h.threshold_pos, trivial⟩

/-- **Whatever the loop does without the store**, it keeps up with its frontier. -/
theorem KeepsUp.react (h : l.KeepsUp w) (move : LoopMove)
    (hexact : l.state = .serving → l.Exact keyOf name s w) :
    (l.react move).KeepsUp (w.react move l) := by
  have hreact : (l.react move).KeepsUp w := by
    have hreacts := l.reacts_react move
    generalize l.react move = l' at hreacts ⊢
    cases hreacts with
    | hold => exact h.withRun rfl rfl
    | fetch hs =>
      have hstate := h.state
      rw [hs] at hstate
      exact ⟨h.threshold_pos, hstate⟩
    | dispatch hs hrun =>
      have hsame := PipelineRun.dispatch?_sameProgress hrun
      exact h.withRun hsame.config hsame.frontier
    | absorb hs hrun hearly => exact h.absorb hs hrun hearly
    | note hs hrun hdue => exact h.note (hexact hs) hrun hdue
    | stop | cease => exact h.goTo trivial
    | timeOut => exact ⟨h.threshold_pos, trivial⟩
    | close => exact h.close
    | idle => exact h
  refine ⟨hreact.threshold_pos, ?_⟩
  rw [Watch.react_lastWrite]
  exact hreact.state

theorem KeepsUp.work (h : l.KeepsUp w) (number : Nat) (outcome : Outcome) :
    (l.work number outcome).KeepsUp (w.work number outcome l) := by
  have hsame := PipelineRun.work_sameProgress number outcome l.run
  have hwork : (l.work number outcome).KeepsUp w := h.withRun hsame.config hsame.frontier
  exact ⟨hwork.threshold_pos, hwork.state⟩

/-- **A step of the loop's procedure**, perhaps a failing one. When a row is stored, the next
stretch begins at the frontier. -/
theorem Proceeds.keepsUp (hproceeds : l.Proceeds keyOf fault s w l' s' w') (h : l.KeepsUp w) :
    l'.KeepsUp w' := by
  have hstate := h.state
  cases hproceeds with
  | ask | seek | refuse => exact ⟨h.threshold_pos, trivial⟩
  | begin => exact ⟨h.threshold_pos, fun _ => h.threshold_pos⟩
  | read hl | miss hl =>
    rw [hl] at hstate
    exact h.goTo hstate
  | @fetch reading hl events hr =>
    rw [hl] at hstate
    obtain ⟨hconfig, hfrontier, -⟩ := l.run.accept_frame keyOf events
    have hgoes : (l.goTo .serving).KeepsUp w := h.goTo hstate
    have haccept := hgoes.withRun hconfig hfrontier
    exact ⟨haccept.threshold_pos, haccept.state⟩
  | @write b marking isLast hl hr =>
    rw [hl] at hstate
    cases isLast <;> exact ⟨h.threshold_pos, hstate⟩
  | @mark b marking isLast hl result hr =>
    cases isLast with
    | true => cases result <;> exact ⟨h.threshold_pos, trivial⟩
    | false =>
      cases result with
      | error e => exact ⟨h.threshold_pos, fun hwrite => absurd rfl hwrite⟩
      | ok _ =>
        -- the stretch begins anew, and is empty
        refine ⟨h.threshold_pos, fun _ => ?_⟩
        change l.run.frontier.position - l.run.frontier.position < _
        rw [Nat.sub_self]
        exact h.threshold_pos
  | idle => exact h

/-! ### Storing a row -/

/-- **A step that stores the row that is to be written.** -/
structure Stores (name : String) (s : Store) (l : PipelineLoop) (b : Bookmark) (isLast : Bool)
    (l' : PipelineLoop) (s' : Store) : Prop where
  /-- The row is to be written. -/
  before : ∃ marking, l.state = .marking b marking isLast ∧ (marking.next b).result? = none
  /-- It is stored. -/
  after : ∃ marking, l' = l.goTo (.marking b marking isLast) ∧ marking.IsStored
  /-- The rows. -/
  adds : ∃ row, row.event = b.event ∧ s.Adds name row s'

/-- **What a step of the loop's procedure does to the rows of the pipeline**: nothing, or it stores
the row that is to be written. -/
theorem Proceeds.rowsOf_cases (hproceeds : l.Proceeds keyOf fault s w l' s' w')
    (h : l.Placed name s) (hs : s.RowsCounted) :
    s'.rowsOf name = s.rowsOf name ∨ ∃ b isLast, l.Stores name s b isLast l' s' := by
  cases hproceeds with
  | @write b marking isLast hl hr =>
    obtain ⟨hname, hplaced⟩ := h.marking b marking isLast hl
    subst hname
    rcases (hplaced.step hs hr fault).cases with ⟨hspares, -⟩ | ⟨hstored, hrow⟩
    · exact Or.inl hspares.rowsOf_eq
    · exact Or.inr ⟨b, isLast, ⟨marking, hl, hr⟩, ⟨_, rfl, hstored⟩, hrow⟩
  | _ => exact Or.inl rfl

section Stores

variable {b : Bookmark} {isLast : Bool}

/-- Before the row is stored the stretch begins at the latest row. -/
theorem Stores.noted_eq (h : l.Stores name s b isLast l' s') : l.noted = l.run.frontier.start := by
  obtain ⟨marking, hs, hr⟩ := h.before
  exact noted_of_not_isStored hs (marking.not_isStored_of_none hr)

/-- When the row is stored the latest row is at the frontier. -/
theorem Stores.noted_eq_position (h : l.Stores name s b isLast l' s') :
    l'.noted = l.run.frontier.position := by
  obtain ⟨marking, rfl, hstored⟩ := h.after
  exact noted_of_isStored rfl hstored

end Stores

end PipelineLoop

/-! ### Over all runs of a pipeline -/

namespace Tenancy

/-- The move stores a row of a pipeline, and is not one of its loop. -/
def Move.storesRow (name : String) : Move → Bool
  | call c => c.storesRow name
  | _ => false

/-- **The invariant.** -/
structure Cadent (t : Tenancy) : Prop where
  /-- The invariant of all histories. -/
  steady : t.Steady
  /-- The log. -/
  coherent : t.store.events.Coherent
  /-- The rows of the pipeline. -/
  forward : t.store.Forward t.name
  /-- The run goes up the log. -/
  ascends : ∀ l, t.loop = some l → l.Ascends t.store.events t.watch
  /-- The run keeps up with its frontier. -/
  keepsUp : ∀ l, t.loop = some l → l.KeepsUp t.watch
  /-- The run has given up on its elements, or its ledger is known. -/
  givenUp : ∀ l, t.loop = some l → t.watch.timedOut = true →
    l.GivenUp t.name t.store t.watch

theorem cadent_start (name : String) : (start name).Cadent where
  steady := steady_start name
  coherent := EventTable.coherent_empty
  forward := Store.forward_empty name
  ascends _ hl := nomatch hl
  keepsUp _ hl := nomatch hl
  givenUp _ hl := nomatch hl

variable {t : Tenancy} {l : PipelineLoop}

/-- The latest row names the event at which the stretch begins, or the one at the frontier if it has
just been stored. -/
theorem Cadent.names (h : t.Cadent) (hl : t.loop = some l) (hs : l.state ≠ .resuming .asking) :
    t.watch.Names t.name t.store l.noted := by
  cases hw : t.watch.timedOut with
  | false => exact (h.steady.exact l hl hw).names hs
  | true => exact (h.givenUp l hl hw).names

theorem Cadent.marks (h : t.Cadent) (hl : t.loop = some l) {b : Bookmark} {marking : Marking}
    {isLast : Bool} (hs : l.state = .marking b marking isLast) : l.Marks t.watch b := by
  cases hw : t.watch.timedOut with
  | false => exact (h.steady.exact l hl hw).marks hs
  | true => exact (h.givenUp l hl hw).marks hs

/-- A run that serves has not given up on its elements. -/
theorem Cadent.exact_of_serving (h : t.Cadent) (hl : t.loop = some l) (hs : l.state = .serving) :
    l.Exact t.keyOf t.name t.store t.watch := by
  cases hw : t.watch.timedOut with
  | false => exact h.steady.exact l hl hw
  | true =>
    have hstate := (h.givenUp l hl hw).state
    rw [hs] at hstate
    exact absurd hstate id

/-- The number of the latest row is the only one. -/
theorem Cadent.names_iff (h : t.Cadent) (hl : t.loop = some l)
    (hs : l.state ≠ .resuming .asking) {n : Nat} :
    t.watch.Names t.name t.store n ↔ n = l.noted := by
  have hnames := h.names hl hs
  constructor
  · exact fun hn => hn.unique hnames h.coherent (h.ascends l hl).fetched
  · rintro rfl
    exact hnames

/-! ### Moves -/

/-- **If a step of the procedure stores a row, the rows go up.** -/
theorem Cadent.forward_proceeds (h : t.Cadent) (hl : t.loop = some l) {fault : Option StoreError}
    {l' : PipelineLoop} {s : Store} {w : Watch}
    (hproceeds : l.Proceeds t.keyOf fault t.store t.watch l' s w) (hs : s.events.Coherent) :
    s.Forward t.name := by
  have hascends := h.ascends l hl
  rcases hproceeds.rowsOf_cases (h.steady.placed l hl) h.steady.rows with
    heq | ⟨b, isLast, hstores⟩
  · exact h.forward.mono heq h.coherent hs fun e he => hproceeds.events_eq ▸ he
  · obtain ⟨marking, hmarking, -⟩ := hstores.before
    obtain ⟨row, hevent, hadds⟩ := hstores.adds
    have hmarks := h.marks hl hmarking
    have hnames := h.names hl (by simp [hmarking])
    rw [hstores.noted_eq] at hnames
    -- the row names a fetched event, whose number is beyond that of the latest row
    obtain ⟨e, he, hid⟩ := hmarks.event
    have hstored := hascends.fetched.stored e (List.mem_of_getElem? he)
    have hposition := h.coherent.positionOf_eq_some_iff.mpr
      ⟨e, hstored, (hevent.trans hid).symm, rfl⟩
    exact h.forward.add hadds hproceeds.events_eq hposition fun last q =>
      hnames.position_lt h.coherent hascends.fetched he hmarks.start_lt

/-- The loop does something without the store, and may give up on its elements. -/
theorem Cadent.givenUp_react (h : t.Cadent) (hl : t.loop = some l) {move : LoopMove}
    (hw : (t.watch.react move l).timedOut = true) :
    (l.react move).GivenUp t.name t.store (t.watch.react move l) := by
  cases htimed : t.watch.timedOut with
  | true => exact (h.givenUp l hl htimed).react move
  | false =>
    -- it is now that the loop gives up
    unfold Watch.react at hw ⊢
    split at hw
    · next spared hs =>
      simp only [PipelineLoop.react, hs]
      exact (h.steady.exact l hl htimed).givenUp hs spared
    · cases htimed.symm.trans hw

/-- **Whatever happens next**, as long as no other user stores a row of the pipeline. -/
theorem Cadent.act (h : t.Cadent) {move : Move} (hothers : move.storesRow t.name = false) :
    (t.act move).Cadent := by
  have hsteady := h.steady.act move
  have hcoherent := act_coherent h.coherent move
  have hacts := t.acts_act move
  generalize t.act move = t' at hsteady hcoherent hacts ⊢
  cases hacts with
  | @call call hadmits =>
    rw [admits, Bool.and_eq_true] at hadmits
    have hspares := Call.spares_of_isFair hadmits.1 hothers
    have hkeeps : ∀ e ∈ t.store.events.toList, e ∈ (call.perform t.store).2.events.toList :=
      fun e => Call.mem_perform call h.coherent
    refine ⟨hsteady, hcoherent, h.forward.mono hspares.rowsOf_eq h.coherent hcoherent hkeeps,
      fun l hl => ?_, h.keepsUp, fun l hl hw => ?_⟩
    · exact (h.ascends l hl).mono h.coherent hcoherent hkeeps
    · exact (h.givenUp l hl hw).mono hspares.latestCheckpoint_eq
  | launch keyOf hname hvalid =>
    refine ⟨hsteady, h.coherent, h.forward, fun l hl => ?_, fun l hl => ?_, fun l _ hw => ?_⟩
    · cases hl
      exact PipelineLoop.ascends_start _ t.store.events
    · cases hl
      exact PipelineLoop.keepsUp_start hvalid
    · cases hw
  | @proceed l _ hl _ _ _ hproceeds =>
    refine ⟨hsteady, hcoherent, h.forward_proceeds hl hproceeds hcoherent, fun l' hl' => ?_,
      fun l' hl' => ?_, fun l' hl' hw => ?_⟩
    · cases hl'
      dsimp only
      rw [hproceeds.events_eq]
      refine hproceeds.ascends (h.ascends l hl) h.coherent fun row hrow => ?_
      rw [(h.steady.placed l hl).name_eq] at hrow
      exact h.forward.located hrow
    · cases hl'
      exact hproceeds.keepsUp (h.keepsUp l hl)
    · cases hl'
      have hgiven := h.givenUp l hl (hproceeds.timedOut_eq.symm.trans hw)
      exact hproceeds.givenUp hgiven (h.steady.placed l hl) h.steady.rows
  | @react l hl move =>
    refine ⟨hsteady, h.coherent, h.forward, fun l' hl' => ?_, fun l' hl' => ?_,
      fun l' hl' hw => ?_⟩
    · cases hl'
      exact (h.ascends l hl).react move
    · cases hl'
      exact (h.keepsUp l hl).react move (h.exact_of_serving hl)
    · cases hl'
      exact h.givenUp_react hl hw
  | @work l hl number outcome =>
    refine ⟨hsteady, h.coherent, h.forward, fun l' hl' => ?_, fun l' hl' => ?_,
      fun l' hl' hw => ?_⟩
    · cases hl'
      exact (h.ascends l hl).work number outcome
    · cases hl'
      exact (h.keepsUp l hl).work number outcome
    · cases hl'
      exact (h.givenUp l hl hw).work number outcome
  | leave =>
    -- nothing runs any more, so nothing is said of a loop
    refine ⟨hsteady, h.coherent, h.forward, ?_, ?_, ?_⟩ <;>
    · intro _ hl
      cases hl
  | idle => exact h

/-- **Whatever happens**, in any order. -/
theorem Cadent.run (h : t.Cadent) {moves : List Move}
    (hothers : ∀ move ∈ moves, move.storesRow t.name = false) : (t.run moves).Cadent := by
  induction moves generalizing t with
  | nil => exact h
  | cons move rest ih =>
    rw [List.forall_mem_cons] at hothers
    refine ih (h.act hothers.1) fun m hm => ?_
    rw [act_name]
    exact hothers.2 m hm

/-- **A writer may make all its calls**, and stores no rows. -/
theorem admits_of_append {b : Batch} {a : Append} {call : Call}
    {resume : Except StoreError call.Answer → Append} (ha : a.next b = .asks call resume) :
    t.admits call = true ∧ (Move.call call).storesRow t.name = false := by
  have hother : ∀ {call : Call}, call.isFair t.store = true → call.storesRow t.name = false →
      t.admits call = true ∧ (Move.call call).storesRow t.name = false := by
    intro call hfair hnot
    exact ⟨by rw [admits, hfair, hnot, Bool.not_false, Bool.or_true, Bool.and_true], hnot⟩
  cases a with
  | findingHead | creatingHead | movingHead =>
    cases ha
    exact hother rfl rfl
  | committing commit =>
    cases commit with
    | reading tried | storing tried first =>
      cases ha
      exact hother rfl rfl
    | retrying tried => cases ha
    | done result => cases result <;> cases ha
  | conflicting | done result => cases ha

/-! ### Rows -/

/-- **Only a step of the loop's procedure stores a row of the pipeline.** -/
theorem eq_proceed_of_rowsOf_ne {move : Move} (hothers : move.storesRow t.name = false)
    (hrows : (t.act move).store.rowsOf t.name ≠ t.store.rowsOf t.name) :
    ∃ fault l, move = .proceed fault ∧ t.loop = some l := by
  have hacts := t.acts_act move
  generalize t.act move = t' at hrows hacts
  cases hacts with
  | call hadmits =>
    rw [admits, Bool.and_eq_true] at hadmits
    exact absurd (Call.spares_of_isFair hadmits.1 hothers).rowsOf_eq hrows
  | @proceed l _ hl fault => exact ⟨fault, l, rfl, hl⟩
  | _ => exact absurd rfl hrows

/-- **A row that is stored** has the number of the frontier. If the loop serves, the frontier has
come far enough. -/
theorem Cadent.row (h : t.Cadent) {fault : Option StoreError} (hl : t.loop = some l)
    (hrows : (t.act (.proceed fault)).store.rowsOf t.name ≠ t.store.rowsOf t.name) :
    let t' := t.act (.proceed fault)
    ∃ row, t'.store.rowsOf t.name = t.store.rowsOf t.name ++ [row] ∧
      (∀ k, t.watch.Names t.name t.store k ↔ k = l.run.frontier.start) ∧
      (∀ k, t'.watch.Names t.name t'.store k ↔ k = l.run.frontier.position) ∧
      l.run.frontier.start < l.run.frontier.position ∧
      (l.state.serves = true →
        l.run.frontier.start + l.run.config.checkpointThreshold ≤ l.run.frontier.position) := by
  intro t'
  have hnext : t'.Cadent := h.act rfl
  have hact : t' = t.proceed fault l := by simp only [t', Tenancy.act, hl]
  change t'.store.rowsOf t.name ≠ _ at hrows
  rw [hact] at hnext hrows ⊢
  have hproceeds := PipelineLoop.proceeds_proceed t.keyOf fault t.store t.watch l
  rcases hproceeds.rowsOf_cases (h.steady.placed l hl) h.steady.rows with
    heq | ⟨b, isLast, hstores⟩
  · exact absurd heq hrows
  · obtain ⟨marking, hs, -⟩ := hstores.before
    obtain ⟨marking', hs', -⟩ := hstores.after
    obtain ⟨row, -, hadds⟩ := hstores.adds
    have hlt := (h.marks hl hs).start_lt
    have hbegun : (l.proceed t.keyOf fault t.store).1.state ≠ .resuming .asking := by
      rw [hs']
      intro heq
      cases heq
    refine ⟨row, hadds.rowsOf_eq, fun k => ?_, fun k => ?_, hlt, fun hserves => ?_⟩
    · rw [h.names_iff hl (by simp [hs]), hstores.noted_eq]
    · rw [← hstores.noted_eq_position]
      exact hnext.names_iff rfl hbegun
    · -- a loop that serves writes no row before it is due
      have hkeeps := (h.keepsUp l hl).state
      rw [hs] at hkeeps hserves
      cases isLast with
      | false =>
        have hle : l.run.config.checkpointThreshold ≤ l.run.frontier.length := hkeeps
        rw [Frontier.length] at hle
        omega
      | true => cases hserves

/-- **Rows go up the log, and are neither too close nor too far apart.** Whatever happens to a
pipeline over all of its runs, as long as no other user of the store writes its rows:

* the rows, in the order in which they were inserted, name events at ever greater positions;
* a row that is stored has a greater number in its run than the latest row before it, or than zero
  if there is none of this run, and if the loop serves, it is greater by at least the threshold;
* while the loop serves, the number of the frontier is less than the threshold beyond that of the
  latest row, unless the last row could not be written;
* and nothing is asked of those who append: they may make all their calls, and store no rows. -/
theorem rows_ascend_by_threshold {name : String} {moves : List Move} {t : Tenancy}
    (ht : (start name).run moves = t) (hothers : ∀ move ∈ moves, move.storesRow name = false) :
    t.store.Forward name ∧
      (∀ move, move.storesRow name = false →
        (t.act move).store.rowsOf name ≠ t.store.rowsOf name →
        ∃ l row m n, t.loop = some l ∧
          (t.act move).store.rowsOf name = t.store.rowsOf name ++ [row] ∧
          (∀ k, t.watch.Names name t.store k ↔ k = m) ∧
          (∀ k, (t.act move).watch.Names name (t.act move).store k ↔ k = n) ∧ m < n ∧
          (l.state.serves = true → m + l.run.config.checkpointThreshold ≤ n)) ∧
      (∀ l, t.loop = some l → (l.state = .serving ∨ ∃ reading, l.state = .fetching reading) →
        ∃ m, (∀ k, t.watch.Names name t.store k ↔ k = m) ∧
          (t.watch.lastWrite ≠ some false →
            l.run.frontier.position < m + l.run.config.checkpointThreshold)) ∧
      ∀ (b : Batch) (a : Append) (call : Call) (resume : Except StoreError call.Answer → Append),
        a.next b = .asks call resume →
        t.admits call = true ∧ (Move.call call).storesRow name = false := by
  have hcadent := (cadent_start name).run hothers
  have hname := run_name moves (start name)
  rw [ht] at hcadent hname
  obtain rfl : t.name = name := hname
  refine ⟨hcadent.forward, fun move hmove hrows => ?_, fun l hl hs => ?_,
    fun b a call resume => admits_of_append⟩
  · obtain ⟨fault, l, rfl, hl⟩ := eq_proceed_of_rowsOf_ne hmove hrows
    obtain ⟨row, hrow, hbefore, hafter, hlt, hfar⟩ := hcadent.row hl hrows
    exact ⟨l, row, _, _, hl, hrow, hbefore, hafter, hlt, hfar⟩
  · have hnoted : l.noted = l.run.frontier.start := by
      rcases hs with hs | ⟨reading, hs⟩ <;>
        exact PipelineLoop.noted_of_not_marking (congrArg LoopState.isMarking hs)
    have hbegun : l.state ≠ .resuming .asking := by
      rcases hs with hs | ⟨reading, hs⟩ <;> simp [hs]
    refine ⟨l.run.frontier.start, fun k => ?_, fun hwrite => ?_⟩
    · rw [hcadent.names_iff hl hbegun, hnoted]
    · have hkeeps := (hcadent.keepsUp l hl).state
      have hlt : l.run.frontier.length < l.run.config.checkpointThreshold := by
        rcases hs with hs | ⟨reading, hs⟩
        · rw [hs] at hkeeps
          exact hkeeps hwrite
        · rw [hs] at hkeeps
          exact hkeeps hwrite
      rw [Frontier.length] at hlt
      omega

/-- Two runs over three events. The first stores a row at the second event, which it handles first,
and gives up on the third; the second handles the third, gives up before it has counted it, and
stores a row nevertheless. -/
def twoRuns : List Move :=
  List.flatten
    [[.call (.commitEvents Sequence.events threeEvents),
      .launch { name := "a", checkpointThreshold := 2 } Event.id, .proceed none, .proceed none,
      .react (.tick 0), .proceed none, .proceed none,
      .react .dispatch, .react .dispatch],
    handles 2 .succeeded, handles 1 .succeeded, [.react .absorb, .react .absorb],
    List.replicate 8 (.proceed none),
    [.react .stop, .react (.timeOut fun _ => false), .react .close,
      .launch { name := "a", checkpointThreshold := 2 } Event.id, .proceed none, .proceed none,
      .proceed none, .react (.tick 0), .proceed none, .proceed none, .react .dispatch],
    List.replicate 4 (.work 1 .succeeded),
    [.react .stop, .react (.timeOut fun _ => false), .react .close],
    List.replicate 8 (.proceed none)]

/-- The end of that history. -/
def climber : Tenancy := (start "a").run twoRuns

theorem rows_ascend_by_threshold_climber :
    climber.store.Forward "a" ∧ climber.watch.timedOut = true ∧
      (climber.store.rowsOf "a").map (fun row => climber.store.events.positionOf row.event) =
        [some 2, some 3] := by
  have hend : (start "a").run twoRuns = climber := by rw [climber]
  have hothers : ∀ move ∈ twoRuns, move.storesRow "a" = false := by decide
  obtain ⟨hforward, -, -, -⟩ := rows_ascend_by_threshold hend hothers
  exact ⟨hforward, by decide +kernel, by decide +kernel⟩

end Tenancy

end EventJournal
