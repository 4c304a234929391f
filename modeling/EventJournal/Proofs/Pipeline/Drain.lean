import EventJournal.Proofs.Pipeline.Tenancy
import Mathlib.Algebra.BigOperators.Group.List.Basic

/-!
# A run that is drained comes to its end

Until a run gives up on its elements, each of them is in one place: it waits on the lane of its
key, is released, has been dispatched, or has been counted; and it waits only while another of its
key is on its way (`EventJournal.PipelineRun.Conserved`). So there is always something that can go
on, as long as an element has yet to be counted: a released element can be dispatched, or the
worker of a dispatched one can take its next step.

Each of these takes the run one step nearer to its end (`EventJournal.PipelineRun.remaining`):

| an element | is so many steps from being counted |
|---|---|
| has not been dispatched | six |
| waits for a free worker | five |
| is handled | four |
| has an outcome | three |
| has been announced | two |
| has been completed | one |

A completion releases the next element of the key, and so keeps it among those that have not been
dispatched. When the run is stopped no further element is fetched, and the wait for the elements
ends after as many of these steps as were left, whatever comes in between
(`EventJournal.Tenancy.drain_progress`).
-/

namespace EventJournal

/-- How many steps of its worker an element at a stage is away from being counted. -/
def Stage.left : Stage → Nat
  | waiting => 5
  | running => 4
  | settled _ => 3
  | announced _ => 2
  | completed _ => 1

theorem Stage.left_pos (stage : Stage) : 0 < stage.left := by
  cases stage <;> exact Nat.succ_pos _

theorem Stage.left_le (stage : Stage) : stage.left ≤ 5 := by
  cases stage <;> simp [left]

/-- Settings that make sense have a worker. -/
theorem PipelineConfig.workers_pos_of_fault? {config : PipelineConfig}
    (h : config.fault? = none) : 0 < config.workers := by
  rw [fault?] at h
  repeat
    split at h
    · cases h
  omega

namespace PipelineRun

/-- How many fetched elements have not been dispatched. -/
def undispatched (r : PipelineRun) : Nat := r.fetched - r.stats.settled - r.assigned.length

/-- **How many steps a run is away from its end**, if it fetches no more. -/
def remaining (r : PipelineRun) : Nat :=
  6 * r.undispatched + (r.assigned.map (·.stage.left)).sum

/-- Whether the worker of the element with a number can go on. -/
def isReady (number : Nat) (r : PipelineRun) : Bool :=
  match r.assignment? number with
  | some ⟨_, .waiting⟩ => r.busy < r.config.workers
  | some _ => true
  | none => false

/-- **Where the elements of a run are** that has fetched events, when the outcomes of elements have
been counted. -/
structure Conserved (keyOf : Event → Uuid) (events : List Event)
    (counted : List (Element × Outcome)) (r : PipelineRun) : Prop where
  /-- The number of the last element. -/
  fetched_eq : r.fetched = events.length
  /-- How many elements have been counted. -/
  settled_eq : r.stats.settled = counted.length
  /-- Each fetched element is in one place, and no other element is anywhere. -/
  once : ∀ x, (r.lanes.queue x.key).count x + r.released.count x +
    (r.assigned.map (·.element)).count x + (counted.map (·.1)).count x =
      if x ∈ numbered keyOf events then 1 else 0
  /-- Elements wait for their own key. -/
  keyed : ∀ key, ∀ x ∈ r.lanes.queue key, x.key = key
  /-- Elements wait only while another of their key is released, or is dispatched and has not been
  completed. -/
  behind : ∀ key, r.lanes.queue key ≠ [] → ∃ e, e.key = key ∧
    (e ∈ r.released ∨ ∃ a ∈ r.assigned, a.element = e ∧ a.stage.isCompleted = false)
  /-- An element is under way as long as one has yet to be counted. -/
  underway : r.stats.settled < r.fetched → r.released ≠ [] ∨ r.assigned ≠ []

variable {keyOf : Event → Uuid} {events : List Event} {counted : List (Element × Outcome)}
  {r r' : PipelineRun} {number : Nat} {e : Element}

/-! ### Where the elements are -/

/-- **No two fetched elements are one.** -/
theorem nodup_numbered (keyOf : Event → Uuid) (events : List Event) :
    (numbered keyOf events).Nodup :=
  (nodup_map_number keyOf events).of_map _

/-- **Each element is in one place.** -/
theorem Ledger.once (h : r.Ledger keyOf events counted) (x : Element) :
    (r.lanes.queue x.key).count x + r.released.count x + (r.assigned.map (·.element)).count x +
      (counted.map (·.1)).count x = if x ∈ numbered keyOf events then 1 else 0 := by
  have hplaces := (h.places x.key).count_eq x
  rw [List.count_append, List.count_filter (by simp), List.count_filter (by simp),
    (nodup_numbered keyOf events).count, handlings] at hplaces
  rw [hplaces]
  simp only [List.map_append, List.map_map, List.count_append, Function.comp_def]
  omega

/-- What is on its way is released, or dispatched and not completed. -/
theorem mem_flight_iff : e ∈ r.released ++
      Handling.elementsAt (fun s => !s.isCompleted) (r.handlings counted) ↔
    e ∈ r.released ∨ ∃ a ∈ r.assigned, a.element = e ∧ a.stage.isCompleted = false := by
  rw [List.mem_append, Handling.mem_elementsAt_iff, handlings]
  refine or_congr_right ⟨?_, ?_⟩
  · rintro ⟨stage, hmem, hstage⟩
    rcases List.mem_append.mp hmem with hmem | hmem
    · obtain ⟨a, ha, heq⟩ := List.mem_map.mp hmem
      cases heq
      exact ⟨a, ha, rfl, by simpa using hstage⟩
    · -- what has been counted was completed before
      obtain ⟨c, -, heq⟩ := List.mem_map.mp hmem
      cases heq
      cases hstage
  · rintro ⟨a, ha, rfl, hstage⟩
    exact ⟨a.stage, List.mem_append_left _ (List.mem_map_of_mem ha), by simpa using hstage⟩

/-- **An element waits behind another** of its key. -/
theorem Ledger.behind (h : r.Ledger keyOf events counted) {key : Uuid}
    (hqueue : r.lanes.queue key ≠ []) :
    ∃ e, e.key = key ∧
      (e ∈ r.released ∨ ∃ a ∈ r.assigned, a.element = e ∧ a.stage.isCompleted = false) := by
  obtain ⟨x, hx⟩ := List.exists_mem_of_ne_nil _ hqueue
  -- a key with a queue is busy, and of a busy key one element is on its way
  have hone := h.carries.countP_eq key
  rw [if_pos (Lanes.isBusy_of_mem_queue hx)] at hone
  obtain ⟨e, he, hkey⟩ := List.countP_pos_iff.mp (hone ▸ Nat.one_pos)
  exact ⟨e, of_decide_eq_true hkey, mem_flight_iff.mp he⟩

/-- **Something is under way** as long as an element has yet to be counted. -/
theorem Ledger.underway (h : r.Ledger keyOf events counted) (hlt : r.stats.settled < r.fetched) :
    r.released ≠ [] ∨ r.assigned ≠ [] := by
  by_contra hnone
  rw [not_or, not_ne_iff, not_ne_iff] at hnone
  -- otherwise all that was fetched would have been counted
  have hlength := (h.counted_perm hnone.1 hnone.2).length_eq
  rw [List.length_map, length_numbered, ← h.settled_eq, ← h.fetched_eq] at hlength
  exact hlt.ne hlength

theorem Ledger.conserved (h : r.Ledger keyOf events counted) :
    r.Conserved keyOf events counted :=
  ⟨h.fetched_eq, h.settled_eq, h.once, h.carries.keyed, fun _ => h.behind, h.underway⟩

/-! ### How many steps are left -/

/-- The elements that have not been dispatched, those that have, and the counted ones. -/
theorem Ledger.length_add (h : r.Ledger keyOf events counted) :
    r.undispatched + r.assigned.length + r.stats.settled = r.fetched ∧
      r.released.length ≤ r.undispatched := by
  have hle := h.subperm.length_le
  simp only [handlings, List.length_append, List.length_map, length_numbered,
    ← h.settled_eq, ← h.fetched_eq] at hle
  rw [undispatched]
  omega

theorem sum_left_le (assigned : List Assignment) :
    assigned.length ≤ (assigned.map (·.stage.left)).sum ∧
      (assigned.map (·.stage.left)).sum ≤ 5 * assigned.length := by
  induction assigned with
  | nil => exact ⟨le_rfl, le_rfl⟩
  | cons a rest ih =>
    have hpos := a.stage.left_pos
    have hle := a.stage.left_le
    rw [List.map_cons, List.sum_cons, List.length_cons]
    omega

/-- **No more steps are left than six for each element** that has yet to be counted. -/
theorem Ledger.remaining_le (h : r.Ledger keyOf events counted) :
    r.remaining ≤ 6 * (r.fetched - r.stats.settled) := by
  have hadd := h.length_add.1
  have hsum := (sum_left_le r.assigned).2
  rw [remaining]
  omega

/-- **No step is left** when all elements have been counted. -/
theorem Ledger.remaining_eq_zero_iff (h : r.Ledger keyOf events counted) :
    r.remaining = 0 ↔ r.isSettled = true := by
  have hadd := h.length_add.1
  obtain ⟨hpos, hle⟩ := sum_left_le r.assigned
  rw [remaining, isSettled, decide_eq_true_iff]
  omega

/-- **A dispatch is one step.** -/
theorem Ledger.remaining_dispatch (h : r.Ledger keyOf events counted)
    (hd : r.dispatch? = some (e, r')) : r'.remaining + 1 = r.remaining := by
  have hle := h.length_add.2
  rw [dispatch?] at hd
  split at hd
  · next first rest hreleased =>
    cases hd
    rw [hreleased, List.length_cons] at hle
    simp only [remaining, undispatched, List.map_append, List.sum_append, List.length_append,
      List.map_cons, List.map_nil, List.sum_singleton, List.length_singleton, Stage.left] at hle ⊢
    omega
  · cases hd

/-- What is left of the handlings, of which the counted ones were completed. -/
theorem sum_left_handlings (counted : List (Element × Outcome)) (r : PipelineRun) :
    ((r.handlings counted).map (·.stage.left)).sum =
      (r.assigned.map (·.stage.left)).sum + counted.length := by
  rw [handlings, List.map_append, List.sum_append, List.map_map, List.map_map]
  refine congrArg _ ?_
  simp [Function.comp_def, Stage.left]

/-- **A handling comes to a later stage.** -/
theorem Ledger.remaining_moveTo (h : r.Ledger keyOf events counted) {stage next : Stage}
    (ha : r.assignment? number = some ⟨e, stage⟩) (hnext : next.left + 1 = stage.left) :
    (r.moveTo number next).remaining + 1 = r.remaining := by
  -- nothing but this handling changes, so it is enough to count what is left of the others
  obtain ⟨others, hnow, hthen, -⟩ := h.handlings_split ha
  have hbefore := (hnow.map (·.stage.left)).sum_eq
  have hafter := ((hthen next).map (·.stage.left)).sum_eq
  simp only [sum_left_handlings, List.map_cons, List.sum_cons] at hbefore hafter
  have hsame : (r.moveTo number next).undispatched = r.undispatched := by
    rw [undispatched, undispatched, PipelineRun.moveTo, List.length_map]
  rw [remaining, remaining, hsame]
  omega

/-- **An outcome is counted**, which is the last step of its element. -/
theorem Ledger.remaining_count (h : r.Ledger keyOf events counted) {outcome : Outcome}
    (ha : r.assignment? number = some ⟨e, .completed outcome⟩) :
    (r.count number outcome).remaining + 1 = r.remaining := by
  obtain ⟨others, hnow, -, hthen⟩ := h.handlings_split ha
  have hbefore := (hnow.map (·.stage.left)).sum_eq
  have hafter := ((hthen outcome).map (·.stage.left)).sum_eq
  simp only [sum_left_handlings, List.map_cons, List.sum_cons] at hbefore hafter
  rw [List.length_append, List.length_singleton] at hafter
  -- one more is counted and one less dispatched, so that as many are neither
  have hadd := h.length_add.1
  have hadd' := (h.count ha).length_add.1
  have hsettled : (r.count number outcome).stats.settled = r.stats.settled + 1 := by
    rw [(h.count ha).settled_eq, h.settled_eq, List.length_append, List.length_singleton]
  have hlength := hnow.length_eq
  have hlength' := (hthen outcome).length_eq
  simp only [handlings, List.length_append, List.length_map, List.length_cons,
    List.length_nil] at hlength hlength'
  have hfetched : (r.count number outcome).fetched = r.fetched := rfl
  rw [remaining, remaining]
  omega

/-- **A worker that can go on takes one step**, and another takes none. -/
theorem Ledger.remaining_work (h : r.Ledger keyOf events counted) (number : Nat)
    (outcome : Outcome) :
    (r.work number outcome).remaining + (if r.isReady number then 1 else 0) = r.remaining := by
  rw [PipelineRun.work, isReady]
  cases ha : r.assignment? number with
  | none => rfl
  | some a =>
    obtain ⟨e, stage⟩ := a
    have hnumber : e.number = number := (assignment?_eq_some ha).2
    cases stage with
    | waiting =>
      by_cases hfree : r.busy < r.config.workers
      · simp only [hfree, decide_true, if_true]
        exact h.remaining_moveTo ha rfl
      · simp only [hfree, decide_false, if_false, Bool.false_eq_true, Nat.add_zero]
    | running => exact h.remaining_moveTo ha rfl
    | settled o =>
      subst hnumber
      -- that a success is announced as well leaves as many steps
      have hsame : (r.announce e o).remaining = (r.moveTo e.number (.announced o)).remaining := by
        rw [PipelineRun.announce]
        split <;> rfl
      exact hsame ▸ h.remaining_moveTo ha rfl
    | announced o =>
      subst hnumber
      exact h.remaining_moveTo ha rfl
    | completed o => exact h.remaining_count ha

/-- **Of the dispatched elements one can go on**, as long as there is a worker at all. -/
theorem Ledger.exists_isReady (h : r.Ledger keyOf events counted) (hassigned : r.assigned ≠ [])
    (hworkers : 0 < r.config.workers) : ∃ number, r.isReady number = true := by
  have hfound : ∀ a ∈ r.assigned, r.assignment? a.element.number = some a := by
    intro a ha
    cases hfind : r.assignment? a.element.number with
    | none => exact absurd (decide_eq_true rfl) (List.find?_eq_none.mp hfind a ha)
    | some b => rw [h.eq_of_assigned hfind ha rfl]
  by_cases hbusy : ∃ a ∈ r.assigned, a.stage ≠ .waiting
  · obtain ⟨a, ha, hstage⟩ := hbusy
    refine ⟨a.element.number, ?_⟩
    rw [isReady, hfound a ha]
    obtain ⟨e, stage⟩ := a
    cases stage with
    | waiting => exact absurd rfl hstage
    | _ => rfl
  · -- all workers are free
    obtain ⟨⟨e, stage⟩, ha⟩ := List.exists_mem_of_ne_nil _ hassigned
    have hwaiting : ∀ a ∈ r.assigned, a.stage = .waiting := by
      intro a ha
      by_contra hstage
      exact hbusy ⟨a, ha, hstage⟩
    have hnone : r.busy = 0 := by
      rw [busy, List.length_eq_zero_iff, List.filter_eq_nil_iff]
      intro a ha
      simp [hwaiting a ha]
    obtain rfl : stage = .waiting := hwaiting _ ha
    refine ⟨e.number, ?_⟩
    rw [isReady, hfound _ ha]
    exact decide_eq_true (hnone ▸ hworkers)

end PipelineRun

/-- A loop that waits for its elements. -/
def LoopState.isDraining : LoopState → Bool
  | draining => true
  | _ => false

theorem LoopState.isDraining_iff {state : LoopState} :
    state.isDraining = true ↔ state = .draining := by
  cases state <;> simp [isDraining]

/-- A move after which a loop that waits for its elements still waits. -/
def LoopMove.isPatient : LoopMove → Bool
  | cease | timeOut _ => false
  | _ => true

namespace PipelineLoop

variable {l : PipelineLoop} {keyOf : Event → Uuid} {name : String} {s : Store} {w : Watch}

/-- Whether a move of the loop dispatches an element. -/
def dispatches (move : LoopMove) (l : PipelineLoop) : Bool :=
  match move, l.state with
  | .dispatch, .serving | .dispatch, .draining => !l.run.released.isEmpty
  | _, _ => false

/-- **A loop dispatches the first released element**, if it can dispatch any. -/
theorem react_dispatch (l : PipelineLoop) :
    (l.dispatches .dispatch = false ∧ l.react .dispatch = l) ∨
      ∃ e run, l.dispatches .dispatch = true ∧ l.run.dispatch? = some (e, run) ∧
        l.react .dispatch = { l with run } := by
  obtain ⟨r, state⟩ := l
  have hfirst : ((!r.released.isEmpty) = false ∧
        ((dispatch? ⟨r, state⟩).map (·.2)).getD ⟨r, state⟩ = ⟨r, state⟩) ∨
      ∃ e run, (!r.released.isEmpty) = true ∧ r.dispatch? = some (e, run) ∧
        ((dispatch? ⟨r, state⟩).map (·.2)).getD ⟨r, state⟩ = ⟨run, state⟩ := by
    rw [dispatch?, PipelineRun.dispatch?]
    cases r.released with
    | nil => exact Or.inl ⟨rfl, rfl⟩
    | cons e rest => exact Or.inr ⟨e, _, rfl, rfl, rfl⟩
  cases state with
  | serving => exact hfirst
  | draining => exact hfirst
  | _ => exact Or.inl ⟨rfl, rfl⟩

/-- **A dispatch is one step.** -/
theorem Exact.remaining_dispatch (h : l.Exact keyOf name s w) :
    (if l.dispatches .dispatch then 1 else 0) + (l.react .dispatch).run.remaining =
      l.run.remaining := by
  rcases l.react_dispatch with ⟨hnone, hsame⟩ | ⟨e, run, hsome, hd, hreact⟩
  · rw [hsame, hnone]
    exact Nat.zero_add _
  · rw [hreact, hsome]
    exact (Nat.add_comm _ _).trans (h.ledger.remaining_dispatch hd)

/-- **A loop that waits for its elements hears of one**, and nothing else changes. -/
theorem react_absorb_draining (hs : l.state = .draining) :
    ∃ processed frontier, l.react .absorb =
      { l with run := { l.run with processed := processed, frontier := frontier } } := by
  obtain ⟨r, state⟩ := l
  obtain rfl : state = .draining := hs
  change ∃ processed frontier, ((absorb? ⟨r, .draining⟩).map (·.loop)).getD ⟨r, .draining⟩ = _
  rw [absorb?]
  cases hrun : r.absorb? with
  | none => exact ⟨r.processed, r.frontier, rfl⟩
  | some run =>
    rw [PipelineRun.absorb?] at hrun
    split at hrun
    · cases hrun
      exact ⟨_, _, rfl⟩
    · cases hrun

/-- **A loop that waits for its elements** fetches no more, and comes nearer to its end by
dispatches only. -/
theorem Exact.react_draining (h : l.Exact keyOf name s w) (hs : l.state = .draining)
    {move : LoopMove} (hmove : move.isPatient = true) :
    (l.react move).state = .draining ∧ (l.react move).run.fetched = l.run.fetched ∧
      (if l.dispatches move then 1 else 0) + (l.react move).run.remaining = l.run.remaining := by
  cases move with
  | dispatch =>
    have hsame : (l.react .dispatch).state = l.state ∧
        (l.react .dispatch).run.fetched = l.run.fetched := by
      rcases l.react_dispatch with ⟨-, hsame⟩ | ⟨e, run, -, hd, hreact⟩
      · rw [hsame]
        exact ⟨rfl, rfl⟩
      · rw [PipelineRun.dispatch?] at hd
        split at hd
        · cases hd
          rw [hreact]
          exact ⟨rfl, rfl⟩
        · cases hd
    exact ⟨hsame.1.trans hs, hsame.2, h.remaining_dispatch⟩
  | absorb =>
    obtain ⟨processed, frontier, hreact⟩ := react_absorb_draining hs
    rw [hreact]
    exact ⟨hs, rfl, Nat.zero_add _⟩
  | cease => cases hmove
  | timeOut spared => cases hmove
  | _ =>
    -- a loop that waits does nothing of this kind
    unfold PipelineLoop.react
    rw [hs]
    exact ⟨hs, rfl, Nat.zero_add _⟩

end PipelineLoop

namespace Tenancy

/-! ### What goes on -/

/-- **Whether a move takes an element further**: it is dispatched, or its worker can go on. -/
def goesOn (move : Move) (t : Tenancy) : Bool :=
  match move, t.loop with
  | .react move, some l => l.dispatches move
  | .work number _, some l => l.run.isReady number
  | _, _ => false

/-- How many moves of a history take an element further. -/
def strides : List Move → Tenancy → Nat
  | [], _ => 0
  | move :: rest, t => (if t.goesOn move then 1 else 0) + strides rest (t.act move)

/-- A move after which a run that waits for its elements still waits. -/
def Move.isPatient : Move → Bool
  | react move => move.isPatient
  | leave => false
  | _ => true

/-- **A run waits for its elements**, and has come so many steps nearer to its end than it was. -/
structure Nearer (l : PipelineLoop) (steps : Nat) (t : Tenancy) : Prop where
  /-- It has not given up on its elements. -/
  timedOut : t.watch.timedOut = false
  /-- It waits, for as many as it did. -/
  waits : ∃ l', t.loop = some l' ∧ l'.state = .draining ∧ l'.run.fetched = l.run.fetched ∧
    steps + l'.run.remaining = l.run.remaining

variable {t : Tenancy} {l : PipelineLoop} {move : Move}

theorem nearer_zero (hl : t.loop = some l) (hw : t.watch.timedOut = false)
    (hs : l.state = .draining) : t.Nearer l 0 :=
  ⟨hw, l, hl, hs, rfl, Nat.zero_add _⟩

/-- **What goes further takes the run one step nearer to its end**, whatever it is at. -/
theorem remaining_act (h : t.Steady) (hl : t.loop = some l) (hw : t.watch.timedOut = false)
    (hgoes : t.goesOn move = true) :
    ∃ l', (t.act move).loop = some l' ∧ l'.run.remaining + 1 = l.run.remaining := by
  have hexact := h.exact l hl hw
  rw [goesOn.eq_def, hl] at hgoes
  cases move with
  | react move =>
    cases move with
    | dispatch =>
      have hstep := hexact.remaining_dispatch
      rw [show l.dispatches .dispatch = true from hgoes] at hstep
      exact ⟨l.react .dispatch, by simp only [act, hl], (Nat.add_comm _ _).trans hstep⟩
    | _ => exact nomatch hgoes
  | work number outcome =>
    have hstep := hexact.ledger.remaining_work number outcome
    rw [show l.run.isReady number = true from hgoes] at hstep
    exact ⟨l.work number outcome, by simp only [act, hl], hstep⟩
  | _ => exact nomatch hgoes

/-- **A patient move** leaves a run waiting, one step nearer to its end if it takes an element
further. -/
theorem nearer_act (h : t.Steady) (hl : t.loop = some l) (hw : t.watch.timedOut = false)
    (hs : l.state = .draining) (hmove : move.isPatient = true) :
    (t.act move).Nearer l (if t.goesOn move then 1 else 0) := by
  have hexact := h.exact l hl hw
  cases move with
  | call call =>
    have hsame : (t.act (.call call)).loop = t.loop ∧ (t.act (.call call)).watch = t.watch := by
      unfold act
      dsimp only
      split <;> exact ⟨rfl, rfl⟩
    exact nearer_zero (hsame.1.trans hl) (hsame.2 ▸ hw) hs
  | launch config keyOf =>
    -- no other run begins as long as this one lasts
    have hbusy : t.isIdle = false := by
      rw [isIdle, hl, Option.all_some, PipelineLoop.isEnded, hs]
    have hsame : t.act (.launch config keyOf) = t :=
      if_neg fun hmay => Bool.false_ne_true (hbusy.symm.trans hmay.2.2)
    rw [hsame]
    exact nearer_zero hl hw hs
  | proceed fault =>
    have hnone : l.procedure? t.keyOf = none := by simp only [PipelineLoop.procedure?, hs]
    simp only [act, hl, Tenancy.proceed, PipelineLoop.proceed_eq_self _ _ _ hnone]
    have hproceeds := PipelineLoop.proceeds_proceed t.keyOf fault t.store t.watch l
    exact nearer_zero rfl (hproceeds.timedOut_eq.trans hw) hs
  | react move =>
    have hstep := hexact.react_draining hs hmove
    simp only [act, hl, goesOn]
    refine ⟨?_, l.react move, rfl, hstep⟩
    cases move with
    | timeOut spared => cases hmove
    | _ => exact hw
  | work number outcome =>
    have hstep := hexact.ledger.remaining_work number outcome
    simp only [act, hl, goesOn]
    refine ⟨hw, l.work number outcome, rfl, hs, ?_, (Nat.add_comm _ _).trans hstep⟩
    exact (PipelineRun.work_sameProgress number outcome l.run).fetched
  | leave => cases hmove

/-- **While a run waits for its elements**, whatever happens meanwhile, it comes as many steps
nearer to its end as moves take an element further. -/
theorem nearer_run (h : t.Steady) (hl : t.loop = some l) (hw : t.watch.timedOut = false)
    (hs : l.state = .draining) {moves : List Move} (hmoves : ∀ m ∈ moves, m.isPatient = true) :
    (t.run moves).Nearer l (strides moves t) := by
  induction moves generalizing t l with
  | nil => exact nearer_zero hl hw hs
  | cons move rest ih =>
    rw [List.forall_mem_cons] at hmoves
    obtain ⟨hw', l', hl', hs', hfetched, hstep⟩ := nearer_act h hl hw hs hmoves.1
    obtain ⟨hend, l'', hl'', hs'', hfetched', hrest⟩ := ih (h.act move) hl' hw' hs' hmoves.2
    refine ⟨hend, l'', hl'', hs'', hfetched'.trans hfetched, ?_⟩
    rw [strides, Nat.add_assoc, hrest, hstep]

/-- **A run that waits for its elements ends its wait or can go on.** -/
theorem settled_or_goesOn (h : t.Steady) (hl : t.loop = some l) (hw : t.watch.timedOut = false)
    (hs : l.state = .draining) :
    (l.run.isSettled = true → (t.act (.react .cease)).loop = some (l.goTo .closing)) ∧
      (l.run.isSettled = false → t.goesOn (.react .dispatch) = true ∨
        ∃ number, ∀ outcome, t.goesOn (.work number outcome) = true) := by
  have hexact := h.exact l hl hw
  constructor
  · intro hsettled
    simp only [act, hl]
    unfold PipelineLoop.react
    simp only [hs, PipelineLoop.drained?, hsettled, if_true, Option.getD_some]
  · intro hunsettled
    have hlt : l.run.stats.settled < l.run.fetched :=
      Nat.lt_of_not_le (of_decide_eq_false hunsettled)
    rcases hexact.ledger.underway hlt with hreleased | hassigned
    · left
      simp only [goesOn, hl]
      unfold PipelineLoop.dispatches
      simpa [hs] using hreleased
    · right
      obtain ⟨number, hready⟩ := hexact.ledger.exists_isReady hassigned
        (PipelineConfig.workers_pos_of_fault? hexact.valid)
      exact ⟨number, fun outcome => by simpa only [goesOn, hl] using hready⟩

/-- **Elements are conserved, and the wait for them ends.** Whatever has happened before and
meanwhile, as long as a run has not given up on its elements: each fetched element is in one
place, and waits only while another of its key is on its way. Each dispatch and each step of a
worker takes the run one step nearer to its end, which is no more than six steps away for each
element that has yet to be counted. When the run waits for its elements it fetches no more, and so
the wait is over after as many of these steps as were left, whatever comes in between; until then
there is always one that can be taken, however the handlers return. -/
theorem drain_progress {name : String} {moves : List Move} (ht : (start name).run moves = t)
    (hl : t.loop = some l) (hw : t.watch.timedOut = false) :
    l.run.Conserved t.keyOf t.watch.fetched t.watch.counted ∧
      l.run.remaining ≤ 6 * (l.run.fetched - l.run.stats.settled) ∧
      (∀ move, t.goesOn move = true →
        ∃ l', (t.act move).loop = some l' ∧ l'.run.remaining + 1 = l.run.remaining) ∧
      (l.state = .draining → ∀ more : List Move, (∀ m ∈ more, m.isPatient = true) →
        ∃ l', (t.run more).loop = some l' ∧ l'.state = .draining ∧
          l'.run.fetched = l.run.fetched ∧
          strides more t + l'.run.remaining = l.run.remaining ∧
          (l'.run.remaining = 0 ↔ l'.run.isSettled = true) ∧
          (l'.run.isSettled = true →
            ((t.run more).act (.react .cease)).loop = some (l'.goTo .closing)) ∧
          (l'.run.isSettled = false → (t.run more).goesOn (.react .dispatch) = true ∨
            ∃ number, ∀ outcome, (t.run more).goesOn (.work number outcome) = true)) := by
  have hsteady := (steady_start name).run moves
  rw [ht] at hsteady
  have hledger := (hsteady.exact l hl hw).ledger
  refine ⟨hledger.conserved, hledger.remaining_le, fun move => remaining_act hsteady hl hw, ?_⟩
  intro hs more hmore
  obtain ⟨hw', l', hl', hs', hfetched, hstrides⟩ := nearer_run hsteady hl hw hs hmore
  have hledger' := ((hsteady.run more).exact l' hl' hw').ledger
  exact ⟨l', hl', hs', hfetched, hstrides, hledger'.remaining_eq_zero_iff,
    settled_or_goesOn (hsteady.run more) hl' hw' hs'⟩

/-- A history in which three events of one key are fetched, the first is dispatched, and the run
is stopped. -/
def stopping : List Move :=
  [.call (.commitEvents Sequence.events threeEvents), .launch { name := "a" } Event.stream,
    .proceed none, .proceed none, .react (.tick 0), .proceed none, .proceed none,
    .react .dispatch, .react .stop]

/-- The end of that history. -/
def stopped : Tenancy := (start "a").run stopping

/-- The rest of that history: another writer goes on, and one handler breaks down. -/
def finishing : List Move :=
  List.flatten
    [handles 1 .succeeded,
    [.react .dispatch, .call (.insertHead ⟨.ofNat 8, 2, "order"⟩), .react .absorb],
    handles 2 .panicked, [.react (.tick 7), .react .dispatch], handles 3 .failed]

theorem drain_progress_finishing :
    stopped.watch.fetched = threeEvents ∧ ∃ l, stopped.loop = some l ∧ l.run.remaining = 17 ∧
      (∃ e, e.key = .ofNat 7 ∧ (e ∈ l.run.released ∨
        ∃ a ∈ l.run.assigned, a.element = e ∧ a.stage.isCompleted = false)) ∧
      strides finishing stopped = 17 ∧
      ∃ l', (stopped.run finishing).loop = some l' ∧ l'.run.isSettled = true ∧
        ((stopped.run finishing).act (.react .cease)).loop = some (l'.goTo .closing) := by
  obtain ⟨l, hl, hfacts⟩ : ∃ l, stopped.loop = some l ∧
      (l.run.remaining, (l.run.lanes.queue (.ofNat 7)).isEmpty, l.state.isDraining) =
        (17, false, true) := Option.map_eq_some_iff.mp (by decide +kernel)
  simp only [Prod.mk.injEq] at hfacts
  obtain ⟨hremaining, hqueue, hdraining⟩ := hfacts
  have hs : l.state = .draining := LoopState.isDraining_iff.mp hdraining
  have hfetched : stopped.watch.fetched = threeEvents := by decide +kernel
  have hstrides : strides finishing stopped = 17 := by decide +kernel
  have hend : (start "a").run stopping = stopped := by rw [stopped]
  obtain ⟨hconserved, -, -, hdrain⟩ := drain_progress hend hl (by decide +kernel)
  obtain ⟨l', hl', -, -, hsteps, hzero, hcease, -⟩ := hdrain hs finishing (by decide)
  have hsettled : l'.run.isSettled = true := hzero.mp (by omega)
  refine ⟨hfetched, l, hl, hremaining, ?_, hstrides, l', hl', hsettled, hcease hsettled⟩
  exact hconserved.behind _ (by simpa using hqueue)

end Tenancy

end EventJournal
