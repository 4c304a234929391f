import EventJournal.Daemon.Command
import EventJournal.Daemon.Service
import EventJournal.Proofs.Pipeline.Cadence
import EventJournal.Proofs.Pipeline.Drain

/-!
# The daemon among the users of a store

What holds of a run holds in whatever order things happen to it, and the daemon is one such order:
each of its states is one of a tenancy in which a run was begun and nobody else moves
(`EventJournal.Service.follows_after`).

| the daemon | is in the tenancy |
|---|---|
| takes a step of the procedure | a step of the loop whose call does not fail |
| makes the loop do something | the same move, since the loop can make it |
| goes on with an element | a step of its worker; if the handler runs, it returns |
| rests, or has ended | where it was |

A daemon that has been stopped does not rest before all elements have been handled or time is up,
and comes to that after no more looks than there are steps left
(`EventJournal.Service.Follows.drain_ends`).
-/

namespace EventJournal

/-! ### Settings -/

/-- What comes before a result has come to a result itself. -/
theorem exists_ok_of_bind {ε α β : Type} {x : Except ε α} {f : α → Except ε β} {b : β}
    (h : x >>= f = .ok b) : ∃ a, x = .ok a ∧ f a = .ok b := by
  cases x with
  | error e => cases h
  | ok a => exact ⟨a, rfl, h⟩

theorem DaemonConfig.fault?_of_check {config config' : PipelineConfig}
    (h : check config = .ok config') : config'.fault? = none := by
  rw [check] at h
  split at h
  · cases h
  · next hfault =>
    cases h
    exact hfault

/-- **The settings of the pipeline that are read** make sense. -/
theorem DaemonConfig.fault?_of_read {lookup : String → Option String} {config : DaemonConfig}
    (h : read lookup = .ok config) : config.pipeline.fault? = none := by
  obtain ⟨environment, -, h⟩ := exists_ok_of_bind h
  obtain ⟨pipeline, hpipeline, h⟩ := exists_ok_of_bind h
  obtain ⟨logFormat, -, h⟩ := exists_ok_of_bind h
  cases h
  -- the numbers are read one after another, before they are checked together
  iterate 7 obtain ⟨_, -, hpipeline⟩ := exists_ok_of_bind hpipeline
  exact fault?_of_check hpipeline

/-- **The daemon begins with the settings that the command line comes to.** -/
theorem Command.exists_start_of_serves {lookup : String → Option String} {arguments : List String}
    {config : DaemonConfig} (h : ofArguments lookup arguments = .serves config) (store : Store) :
    Service.start config.pipeline store = .ok { store, loop := .start config.pipeline } := by
  rw [ofArguments] at h
  split at h
  · cases h
  · next config' hread =>
    split at h
    · cases h
    · cases h
      rw [Service.start, DaemonConfig.fault?_of_read hread]

namespace Service

variable (outcomeOf : Event → Outcome)

/-! ### Looks -/

/-- **What the daemon does, as a move of a tenancy**, if it is one. -/
def move? (deed : Deed) (s : Service) : Option Tenancy.Move :=
  match deed with
  | .proceed => some (.proceed none)
  | .react move => some (.react move)
  | .work number => some (.work number (s.outcome outcomeOf number))
  | .rest _ | .ends _ => none

/-- What the daemon looks at, besides itself. -/
structure Look where
  /-- Whether it is to stop. -/
  stopping : Bool
  /-- The time. -/
  now : Nat

/-- What the daemon does when it looks. -/
def deed (look : Look) (s : Service) : Deed := s.next look.stopping look.now

/-- **One look.** -/
def act (look : Look) (s : Service) : Service := (s.perform outcomeOf look.now (s.deed look)).2

/-- A history of looks. -/
def after (looks : List Look) (s : Service) : Service :=
  looks.foldl (fun s look => s.act outcomeOf look) s

/-- What the daemon does at the looks of a history, as moves of a tenancy. -/
def movesOf : List Look → Service → List Tenancy.Move
  | [], _ => []
  | look :: rest, s =>
    (s.move? outcomeOf (s.deed look)).toList ++ movesOf rest (s.act outcomeOf look)

variable {outcomeOf} {t : Tenancy} {s : Service}

/-- The daemon only moves its run. -/
theorem storesRow_of_move? {deed : Deed} {move : Tenancy.Move}
    (h : s.move? outcomeOf deed = some move) (name : String) : move.storesRow name = false := by
  cases deed <;> cases h <;> rfl

/-- **A daemon whose loop is the one of a tenancy**, and on the same store. -/
structure At (t : Tenancy) (s : Service) : Prop where
  /-- The store. -/
  store_eq : t.store = s.store
  /-- The loop. -/
  loop_eq : t.loop = some s.loop
  /-- The keys of events. -/
  keyOf_eq : t.keyOf = Event.stream

/-- The times of the daemon do not matter. -/
@[simp] theorem store_schedule (move : LoopMove) (now : Nat) (s : Service) :
    (s.schedule move now).store = s.store := by
  cases move <;> rfl

/-- **What the daemon does is what the tenancy does.** -/
theorem At.perform (h : s.At t) (now : Nat) (deed : Deed) :
    (s.perform outcomeOf now deed).2.At (t.run (s.move? outcomeOf deed).toList) := by
  obtain ⟨hstore, hloop, hkey⟩ := h
  cases deed with
  | proceed =>
    change Service.At (t.act (.proceed none)) _
    simp only [Tenancy.act, hloop, Tenancy.proceed, Service.perform, hstore, hkey]
    exact ⟨rfl, rfl, rfl⟩
  | react move =>
    change Service.At (t.act (.react move)) _
    simp only [Tenancy.act, hloop, Service.perform]
    cases hturn : s.loop.turn? move with
    | none => exact ⟨hstore, congrArg some (by rw [PipelineLoop.react_eq, hturn]; rfl), hkey⟩
    | some turn =>
      refine ⟨?_, congrArg some (by rw [PipelineLoop.react_eq, hturn]; rfl), hkey⟩
      exact hstore.trans (store_schedule move now s).symm
  | work number =>
    change Service.At (t.act (.work number (s.outcome outcomeOf number))) _
    simp only [Tenancy.act, hloop, Service.perform]
    exact ⟨hstore, rfl, hkey⟩
  | rest time => exact ⟨hstore, hloop, hkey⟩
  | ends result => exact ⟨hstore, hloop, hkey⟩

/-- A delivery that there is to be made can be made, while the loop serves or waits. -/
theorem isSome_turn?_of_delivery? (hs : s.loop.state = .serving ∨ s.loop.state = .draining)
    {move : LoopMove} (h : s.delivery? = some (.react move)) :
    (s.loop.turn? move).isSome = true := by
  rw [delivery?] at h
  split at h
  · next e rest _ hreleased =>
    cases h
    rcases hs with hs | hs <;>
      simp [PipelineLoop.turn?, hs, PipelineLoop.dispatch?, PipelineRun.dispatch?, hreleased]
  · next e rest _ hprocessed =>
    cases h
    rcases hs with hs | hs <;>
      simp [PipelineLoop.turn?, hs, PipelineLoop.absorb?, PipelineRun.absorb?, hprocessed]
  · cases h

/-- **What the daemon makes the loop do**, the loop can do. -/
theorem isSome_turn? {look : Look} {move : LoopMove} (h : s.deed look = .react move) :
    (s.loop.turn? move).isSome = true := by
  rw [deed, next] at h
  split at h
  · cases h
  · cases h
  · cases h
  · cases h
  · next hs =>
    split at h
    · cases h
      simp [PipelineLoop.turn?, hs]
    · rcases Option.getD_eq_iff.mp h with hdelivery | ⟨-, hother⟩
      · exact isSome_turn?_of_delivery? (Or.inl hs) hdelivery
      · split at hother
        · cases hother
          simp [PipelineLoop.turn?, hs]
        · cases hother
  · next hs =>
    split at h
    · next hsettled =>
      cases h
      simp [PipelineLoop.turn?, hs, PipelineLoop.drained?, hsettled]
    · split at h
      · cases h
        simp [PipelineLoop.turn?, hs]
      · rcases Option.getD_eq_iff.mp h with hdelivery | ⟨-, hother⟩
        · exact isSome_turn?_of_delivery? (Or.inr hs) hdelivery
        · cases hother
  · next hs =>
    cases h
    simp [PipelineLoop.turn?, hs]
  · cases h

end Service

/-! ### One element at a time -/

/-- A worker dispatches nothing. -/
theorem PipelineRun.length_assigned_work_le (number : Nat) (outcome : Outcome) (r : PipelineRun) :
    (r.work number outcome).assigned.length ≤ r.assigned.length := by
  have hmoved : ∀ stage, (r.moveTo number stage).assigned.length ≤ r.assigned.length :=
    fun stage => (List.length_map _).le
  rw [work]
  split
  · split
    · exact hmoved _
    · exact le_rfl
  · exact hmoved _
  · rw [announce]
    split <;> exact (List.length_map _).le
  · exact (List.length_map _).le
  · exact List.length_filter_le _ _
  · exact le_rfl

namespace PipelineLoop

/-- A step of the loop's procedure dispatches nothing. -/
theorem Proceeds.length_assigned_le {keyOf : Event → Uuid} {fault : Option StoreError}
    {s s' : Store} {w w' : Watch} {l l' : PipelineLoop}
    (h : l.Proceeds keyOf fault s w l' s' w') :
    l'.run.assigned.length ≤ l.run.assigned.length := by
  cases h with
  | begin => exact Nat.zero_le _
  | fetch => exact (congrArg List.length (PipelineRun.accept_frame keyOf _ l.run).2.2.2.2).le
  | @mark b marking isLast hs result => cases result <;> cases isLast <;> exact le_rfl
  | _ => exact le_rfl

/-- The loop that begins to note its progress has the run that it had. -/
theorem run_beginMarking (isLast : Bool) (l : PipelineLoop) :
    (l.beginMarking isLast).loop.run = l.run := by
  rw [beginMarking]
  split
  · rfl
  · cases isLast <;> rfl

/-- What the loop does without the store dispatches no more than one element. -/
theorem length_assigned_react_le (move : LoopMove) (l : PipelineLoop) :
    (l.react move).run.assigned.length ≤ l.run.assigned.length + 1 := by
  have hreacts := l.reacts_react move
  generalize l.react move = l' at hreacts ⊢
  cases hreacts with
  | dispatch hs hrun =>
    rw [PipelineRun.dispatch?] at hrun
    split at hrun
    · cases hrun
      exact List.length_append.le
    · cases hrun
  | absorb hs hrun =>
    exact (congrArg List.length (PipelineRun.absorb?_frame hrun).2.2.2.1).le.trans (Nat.le_succ _)
  | note hs hrun =>
    rw [run_beginMarking]
    exact (congrArg List.length (PipelineRun.absorb?_frame hrun).2.2.2.1).le.trans (Nat.le_succ _)
  | timeOut => exact (List.length_filter_le _ _).trans (Nat.le_succ _)
  | close =>
    rw [PipelineLoop.close]
    dsimp only
    split
    · rw [run_beginMarking]
      exact Nat.le_succ _
    · exact Nat.le_succ _
  | _ => exact Nat.le_succ _

end PipelineLoop

namespace Service

variable {outcomeOf : Event → Outcome} {t : Tenancy} {s : Service}

/-- **A daemon that follows the moves of a tenancy**, with one element at a time. -/
structure Follows (t : Tenancy) (s : Service) : Prop extends s.At t where
  /-- What holds of all tenancies in which nobody else stores rows of the pipeline. -/
  cadent : t.Cadent
  /-- No two elements are dispatched. -/
  single : s.loop.run.assigned.length ≤ 1

/-- **The daemon begins.** -/
theorem follows_start {config : PipelineConfig} {store : Store} (hs : start config store = .ok s)
    (ht : t.Cadent) (hidle : t.isIdle = true) (hname : config.name = t.name)
    (hstore : t.store = store) : s.Follows (t.act (.launch config Event.stream)) := by
  rw [start] at hs
  split at hs
  · cases hs
  · next hvalid =>
    cases hs
    have hact : t.act (.launch config Event.stream) =
        { t with loop := some (.start config), keyOf := Event.stream, watch := {} } :=
      if_pos ⟨hname, hvalid, hidle⟩
    refine ⟨?_, ht.act rfl, Nat.zero_le _⟩
    rw [hact]
    exact ⟨hstore, rfl, rfl⟩

/-- **One look.** -/
theorem Follows.act (h : s.Follows t) (outcomeOf : Event → Outcome) (look : Look) :
    (s.act outcomeOf look).Follows (t.run (s.move? outcomeOf (s.deed look)).toList) where
  toAt := h.toAt.perform look.now (s.deed look)
  cadent := by
    refine h.cadent.run fun move hmove => ?_
    exact storesRow_of_move? (Option.mem_toList.mp hmove) _
  single := by
    change (s.perform outcomeOf look.now (s.deed look)).2.loop.run.assigned.length ≤ 1
    cases hassigned : s.loop.run.assigned with
    | cons a rest =>
      have hdeed : s.deed look = .work a.element.number := by
        simp only [deed, next, hassigned]
      rw [hdeed]
      exact (PipelineRun.length_assigned_work_le _ _ _).trans h.single
    | nil =>
      have hnil : s.loop.run.assigned.length = 0 := by rw [hassigned, List.length_nil]
      cases s.deed look with
      | proceed =>
        have hproceeds := PipelineLoop.proceeds_proceed Event.stream none s.store {} s.loop
        exact hproceeds.length_assigned_le.trans h.single
      | react move =>
        have hle := s.loop.length_assigned_react_le move
        rw [PipelineLoop.react_eq] at hle
        simp only [perform]
        cases hturn : s.loop.turn? move with
        | none => exact h.single
        | some turn =>
          rw [hturn] at hle
          simp only [Option.map_some, Option.getD_some] at hle
          dsimp only
          omega
      | work number => exact (PipelineRun.length_assigned_work_le _ _ _).trans h.single
      | rest time => exact h.single
      | ends result => exact h.single

/-- **Whatever the daemon sees when it looks**, and however often. -/
theorem Follows.after (h : s.Follows t) (outcomeOf : Event → Outcome) (looks : List Look) :
    (s.after outcomeOf looks).Follows (t.run (s.movesOf outcomeOf looks)) := by
  induction looks generalizing s t with
  | nil => exact h
  | cons look rest ih =>
    have hrest := ih (h.act outcomeOf look)
    rw [movesOf, Tenancy.run, List.foldl_append]
    exact hrest

/-- **The daemon is one of the courses that a run can take**, whatever it sees when it looks: begun
on the store of a tenancy in which no run is under way, it is always at the place to which the
moves of its run lead. -/
theorem follows_after {config : PipelineConfig} (hs : start config t.store = .ok s) (ht : t.Cadent)
    (hidle : t.isIdle = true) (hname : config.name = t.name) (looks : List Look) :
    (s.after outcomeOf looks).Follows
      (t.run (.launch config Event.stream :: s.movesOf outcomeOf looks)) :=
  (follows_start hs ht hidle hname rfl).after outcomeOf looks

/-! ### The end of the wait -/

/-- A daemon that waits has not given up on its elements. -/
theorem Follows.exact (h : s.Follows t) (hs : s.loop.state = .draining) :
    t.watch.timedOut = false ∧ s.loop.Exact t.keyOf t.name t.store t.watch := by
  have hw : t.watch.timedOut = false := by
    rw [Bool.eq_false_iff]
    intro hw
    have hstate := (h.cadent.givenUp _ h.loop_eq hw).state
    rw [hs] at hstate
    exact hstate
  exact ⟨hw, h.cadent.steady.exact _ h.loop_eq hw⟩

/-- The one element that is dispatched can go on. -/
theorem Follows.isReady (h : s.Follows t) (hs : s.loop.state = .draining) {a : Assignment}
    {rest : List Assignment} (hassigned : s.loop.run.assigned = a :: rest) :
    s.loop.run.isReady a.element.number = true := by
  obtain ⟨-, hexact⟩ := h.exact hs
  obtain ⟨number, hready⟩ := hexact.ledger.exists_isReady (by simp [hassigned])
    (PipelineConfig.workers_pos_of_fault? hexact.valid)
  have hsingle := h.single
  rw [hassigned, List.length_cons] at hsingle
  obtain rfl : rest = [] := List.length_eq_zero_iff.mp (by omega)
  cases hfound : s.loop.run.assignment? number with
  | none =>
    rw [PipelineRun.isReady, hfound] at hready
    cases hready
  | some b =>
    obtain ⟨hmem, hnumber⟩ := PipelineRun.assignment?_eq_some hfound
    rw [hassigned, List.mem_singleton] at hmem
    rwa [← hmem, hnumber]

/-- **A daemon that waits has something to do**: the wait is over, or an element goes on. -/
theorem Follows.deed_of_draining (h : s.Follows t) (hs : s.loop.state = .draining) (look : Look) :
    (∃ a rest, s.loop.run.assigned = a :: rest ∧ s.deed look = .work a.element.number) ∨
      (s.loop.run.isSettled = true ∧ s.deed look = .react .cease) ∨
      (∃ spared, s.deed look = .react (.timeOut spared)) ∨
      (s.loop.run.released ≠ [] ∧ s.deed look = .react .dispatch) := by
  obtain ⟨-, hexact⟩ := h.exact hs
  rw [deed, next, hs]
  cases hassigned : s.loop.run.assigned with
  | cons a rest => exact Or.inl ⟨a, rest, rfl, rfl⟩
  | nil =>
    dsimp only
    split
    · next hsettled => exact Or.inr (Or.inl ⟨hsettled, rfl⟩)
    · next hsettled =>
      split
      · exact Or.inr (Or.inr (Or.inl ⟨_, rfl⟩))
      · -- an element has yet to be counted, and none is dispatched, so that one is released
        have hlt : s.loop.run.stats.settled < s.loop.run.fetched :=
          Nat.lt_of_not_le fun hle => hsettled (decide_eq_true hle)
        have hreleased := (hexact.ledger.underway hlt).resolve_right (not_not.mpr hassigned)
        refine Or.inr (Or.inr (Or.inr ⟨hreleased, ?_⟩))
        obtain ⟨e, rest, heq⟩ := List.exists_cons_of_ne_nil hreleased
        rw [delivery?, heq]
        rfl

/-- After a move of the loop, the daemon has the loop after it. -/
theorem loop_act {look : Look} {move : LoopMove} (hdeed : s.deed look = .react move) :
    (s.act outcomeOf look).loop = s.loop.react move := by
  rw [act, hdeed, PipelineLoop.react_eq, perform]
  cases s.loop.turn? move <;> rfl

/-- **A move that takes an element further** brings the end of the wait nearer by one step. -/
theorem Follows.remaining_act (h : s.Follows t) (hs : s.loop.state = .draining) {look : Look}
    {move : Tenancy.Move} (hmove : s.move? outcomeOf (s.deed look) = some move)
    (hpatient : move.isPatient = true) (hgoes : t.goesOn move = true) :
    (s.act outcomeOf look).loop.state = .draining ∧
      1 + (s.act outcomeOf look).loop.run.remaining = s.loop.run.remaining := by
  have hnext := h.act outcomeOf look
  rw [hmove] at hnext
  obtain ⟨-, l, hl, hdraining, -, hremaining⟩ :=
    Tenancy.nearer_act h.cadent.steady h.loop_eq (h.exact hs).1 hs hpatient
  obtain rfl : (s.act outcomeOf look).loop = l :=
    Option.some.inj (hnext.loop_eq.symm.trans hl)
  rw [hgoes] at hremaining
  exact ⟨hdraining, hremaining⟩

/-- **A look of a daemon that waits**: it waits no longer, or has one step less to go. -/
theorem Follows.drain_act (h : s.Follows t) (hs : s.loop.state = .draining)
    (outcomeOf : Event → Outcome) (look : Look) :
    (s.act outcomeOf look).loop.state = .closing ∨
      (s.act outcomeOf look).loop.state = .draining ∧
        1 + (s.act outcomeOf look).loop.run.remaining = s.loop.run.remaining := by
  rcases h.deed_of_draining hs look with ⟨a, rest, hassigned, hdeed⟩ | ⟨hsettled, hdeed⟩ |
    ⟨spared, hdeed⟩ | ⟨hreleased, hdeed⟩
  · refine Or.inr (h.remaining_act hs (by rw [hdeed]; rfl) rfl ?_)
    simp only [Tenancy.goesOn, h.loop_eq, h.isReady hs hassigned]
  · left
    rw [loop_act hdeed]
    unfold PipelineLoop.react
    simp only [hs, PipelineLoop.drained?, hsettled, if_true]
    rfl
  · left
    rw [loop_act hdeed]
    unfold PipelineLoop.react
    simp only [hs]
    rfl
  · refine Or.inr (h.remaining_act hs (by rw [hdeed]; rfl) rfl ?_)
    simp only [Tenancy.goesOn, h.loop_eq]
    unfold PipelineLoop.dispatches
    simpa [hs] using hreleased

/-- **The wait of the daemon ends**, after no more looks than there were steps left and one,
whatever the daemon sees meanwhile: then all elements have been handled, or time is up. -/
theorem Follows.drain_ends (h : s.Follows t) (hs : s.loop.state = .draining) {looks : List Look}
    (hlong : s.loop.run.remaining < looks.length) :
    ∃ n, n ≤ s.loop.run.remaining + 1 ∧
      (s.after outcomeOf (looks.take n)).loop.state = .closing := by
  induction looks generalizing s t with
  | nil => exact absurd hlong (Nat.not_lt_zero _)
  | cons look rest ih =>
    rcases h.drain_act hs outcomeOf look with hclosing | ⟨hdraining, hstep⟩
    · exact ⟨1, Nat.succ_le_succ (Nat.zero_le _), hclosing⟩
    · rw [List.length_cons] at hlong
      obtain ⟨n, hn, hclosing⟩ := ih (h.act outcomeOf look) hdraining (by omega)
      exact ⟨n + 1, by omega, hclosing⟩

end Service

end EventJournal
