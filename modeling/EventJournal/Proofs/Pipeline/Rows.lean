import EventJournal.Proofs.Pipeline.Calls

/-!
# Which row is the latest

The latest row of a pipeline is the one whose order is the greatest
(`EventJournal.Store.latestCheckpoint`). The orders are claimed from one counter, for the rows of
all pipelines; a row is therefore the latest of its pipeline when it is stored if no other row of
the pipeline was stored since its order was claimed
(`EventJournal.Marking.Placed.step`). What others do to the store meanwhile
(`EventJournal.Store.Spares`) does not matter, as long as the counter never goes back.
-/

namespace EventJournal

namespace Store

/-- The rows of a pipeline. -/
def rowsOf (name : String) (s : Store) : List Checkpoint :=
  s.checkpoints.filter fun row => row.pipeline == name

theorem latestCheckpoint_eq (name : String) (s : Store) :
    s.latestCheckpoint name = lastGreatest (·.order) (s.rowsOf name) := rfl

/-- **No row is placed beyond the counter.** -/
def RowsCounted (s : Store) : Prop :=
  ∀ row ∈ s.checkpoints, row.order ≤ s.counter Sequence.checkpoints

/-- **The rows of a pipeline are spared**, and the counter of all rows does not go back. -/
structure Spares (name : String) (s s' : Store) : Prop where
  /-- The counter. -/
  counter_le : s.counter Sequence.checkpoints ≤ s'.counter Sequence.checkpoints
  /-- The rows of the pipeline. -/
  rowsOf_eq : s'.rowsOf name = s.rowsOf name

variable {name : String} {s s' : Store}

theorem Spares.refl (name : String) (s : Store) : s.Spares name s := ⟨le_rfl, rfl⟩

theorem Spares.latestCheckpoint_eq (h : s.Spares name s') :
    s'.latestCheckpoint name = s.latestCheckpoint name := by
  rw [Store.latestCheckpoint_eq, Store.latestCheckpoint_eq, h.rowsOf_eq]

/-- **A row is added to those of a pipeline**, and placed behind them. -/
structure Adds (name : String) (s : Store) (row : Checkpoint) (s' : Store) : Prop where
  /-- The rows of the pipeline. -/
  rowsOf_eq : s'.rowsOf name = s.rowsOf name ++ [row]
  /-- The place of the row. -/
  order_lt : ∀ other ∈ s.rowsOf name, other.order < row.order

/-- A row that is placed behind all others is the latest. -/
theorem Adds.latestCheckpoint_eq {row : Checkpoint} (h : s.Adds name row s') :
    s'.latestCheckpoint name = some row := by
  rw [Store.latestCheckpoint_eq, h.rowsOf_eq]
  exact lastGreatest_append_singleton fun other hother => (h.order_lt other hother).le

theorem RowsCounted.of_le (h : s.RowsCounted) (hrows : s'.checkpoints = s.checkpoints)
    (hle : s.counter Sequence.checkpoints ≤ s'.counter Sequence.checkpoints) : s'.RowsCounted :=
  fun row hrow => (h row (hrows ▸ hrow)).trans hle

theorem spares_of_le (hrows : s'.checkpoints = s.checkpoints)
    (hle : s.counter Sequence.checkpoints ≤ s'.counter Sequence.checkpoints) (name : String) :
    s.Spares name s' := ⟨hle, by rw [rowsOf, hrows, rowsOf]⟩

/-- A counter that is made, or is moved on, has not gone back. -/
theorem counter_le_insert (s : Store) (counter : String) (value : Nat)
    (h : counter = Sequence.checkpoints → s.counter counter ≤ value) :
    s.counter Sequence.checkpoints ≤
      ({ s with counters := s.counters.insert counter value } : Store).counter
        Sequence.checkpoints := by
  have hget := SortedMap.get?_insert s.counters counter Sequence.checkpoints value
  simp only [Store.counter, hget]
  split
  · next heq => exact heq ▸ h heq.symm
  · exact le_rfl

/-- A counter that did not exist stood at zero. -/
theorem counter_le_insertCounter (s : Store) (counter : String) (value : Nat) :
    s.counter Sequence.checkpoints ≤
      (s.insertCounter counter value).2.counter Sequence.checkpoints := by
  rw [insertCounter]
  split
  · exact le_rfl
  · next hnew =>
    refine s.counter_le_insert counter value fun heq => ?_
    have hnone := SortedMap.contains_eq_false_iff.mp (Bool.eq_false_iff.mpr hnew)
    rw [Store.counter, hnone]
    exact Nat.zero_le _

theorem counter_le_advanceCounter (s : Store) (counter : String) (expected value : Nat)
    (h : counter = Sequence.checkpoints → expected ≤ value) :
    s.counter Sequence.checkpoints ≤
      (s.advanceCounter counter expected value).2.counter Sequence.checkpoints := by
  rw [advanceCounter]
  split
  · next hget =>
    refine s.counter_le_insert counter value fun heq => ?_
    rw [Store.counter, hget]
    exact h heq
  · exact le_rfl

theorem checkpoints_insertCounter (s : Store) (counter : String) (value : Nat) :
    (s.insertCounter counter value).2.checkpoints = s.checkpoints := by
  rw [insertCounter]
  split <;> rfl

theorem checkpoints_advanceCounter (s : Store) (counter : String) (expected value : Nat) :
    (s.advanceCounter counter expected value).2.checkpoints = s.checkpoints := by
  rw [advanceCounter]
  split <;> rfl

end Store

/-! ### What others do -/

namespace Call

/-- **A call that uses the counter of the rows for what it is for**: it does not move the counter
back, and stores rows only at places that were claimed. -/
def isFair (s : Store) : Call → Bool
  | commitEvents sequence _ => sequence ≠ Sequence.checkpoints
  | advanceCounter name expected value => name ≠ Sequence.checkpoints || expected ≤ value
  | insertCheckpoint row => row.order ≤ s.counter Sequence.checkpoints
  | _ => true

/-- A call that stores a row of a pipeline. -/
def storesRow (name : String) : Call → Bool
  | insertCheckpoint row => row.pipeline == name
  | _ => false

variable {call : Call} {s : Store} {name : String}

/-- What a commit at another counter does to the rows: nothing. -/
theorem commitEvents_rows {sequence : String} (h : sequence ≠ Sequence.checkpoints)
    (events : List Event) (s : Store) :
    (s.commitEvents sequence events).2.checkpoints = s.checkpoints ∧
      (s.commitEvents sequence events).2.counter Sequence.checkpoints =
        s.counter Sequence.checkpoints := by
  rcases heq : s.commitEvents sequence events with ⟨r, s'⟩
  cases Store.commits_of_eq heq with
  | nothing | unplaced | elsewhere | undone => exact ⟨rfl, rfl⟩
  | stored =>
    refine ⟨rfl, ?_⟩
    rw [Store.counter, SortedMap.get?_insert_of_ne _ (Ne.symm h)]
    rfl

/-- **What a fair call does to the rows**: it adds one at most, and never moves the counter
back. -/
theorem isFair_effect (h : call.isFair s = true) :
    s.counter Sequence.checkpoints ≤ (call.perform s).2.counter Sequence.checkpoints ∧
      ((call.perform s).2.checkpoints = s.checkpoints ∨
        ∃ row, call = insertCheckpoint row ∧ row.order ≤ s.counter Sequence.checkpoints ∧
          (call.perform s).2.checkpoints = s.checkpoints ++ [row]) := by
  cases call with
  | commitEvents sequence events =>
    have hrows := commitEvents_rows (of_decide_eq_true h) events s
    exact ⟨hrows.2.ge, Or.inl hrows.1⟩
  | insertHead head =>
    simp only [perform, Store.insertHead]
    split <;> exact ⟨le_rfl, Or.inl rfl⟩
  | advanceHead stream expected version =>
    simp only [perform, Store.advanceHead]
    split
    · split <;> exact ⟨le_rfl, Or.inl rfl⟩
    · exact ⟨le_rfl, Or.inl rfl⟩
  | insertCounter counter value =>
    exact ⟨s.counter_le_insertCounter counter value,
      Or.inl (s.checkpoints_insertCounter counter value)⟩
  | advanceCounter counter expected value =>
    refine ⟨s.counter_le_advanceCounter counter expected value fun heq => ?_,
      Or.inl (s.checkpoints_advanceCounter counter expected value)⟩
    simpa [isFair, heq] using h
  | insertCheckpoint row =>
    simp only [perform, Store.insertCheckpoint]
    split
    · exact ⟨le_rfl, Or.inl rfl⟩
    · exact ⟨le_rfl, Or.inr ⟨row, rfl, of_decide_eq_true h, rfl⟩⟩
  | _ => exact ⟨le_rfl, Or.inl rfl⟩

theorem rowsCounted_of_isFair (h : call.isFair s = true) (hs : s.RowsCounted) :
    (call.perform s).2.RowsCounted := by
  obtain ⟨hle, heq | ⟨new, -, hnew, heq⟩⟩ := isFair_effect h
  · exact hs.of_le heq hle
  · intro row hrow
    rw [heq] at hrow
    rcases List.mem_append.mp hrow with hrow | hrow
    · exact (hs row hrow).trans hle
    · obtain rfl := List.mem_singleton.mp hrow
      exact hnew.trans hle

theorem spares_of_isFair (h : call.isFair s = true) (hnot : call.storesRow name = false) :
    s.Spares name (call.perform s).2 := by
  obtain ⟨hle, heq | ⟨new, rfl, -, heq⟩⟩ := isFair_effect h
  · exact Store.spares_of_le heq hle name
  · refine ⟨hle, ?_⟩
    rw [Store.rowsOf, heq, List.filter_append, Store.rowsOf]
    have hother : (new.pipeline == name) = false := hnot
    simp [hother]

end Call

/-! ### Placing a row -/

namespace Marking

/-- **The order that was claimed for a row** is beyond those of all rows of the pipeline, and not
beyond the counter. -/
def Placed (name : String) (s : Store) : Marking → Prop
  | ordering (.done (.ok order)) | storing order =>
    order ≤ s.counter Sequence.checkpoints ∧ ∀ row ∈ s.rowsOf name, row.order < order
  | _ => True

variable {name : String} {s s' : Store} {marking : Marking} {b : Bookmark}

theorem Placed.mono (h : marking.Placed name s) (hs : s.Spares name s') :
    marking.Placed name s' := by
  unfold Placed at h ⊢
  split at h
  · exact ⟨h.1.trans hs.counter_le, hs.rowsOf_eq ▸ h.2⟩
  · exact ⟨h.1.trans hs.counter_le, hs.rowsOf_eq ▸ h.2⟩
  · trivial

/-- The row is stored. -/
def IsStored : Marking → Prop
  | done (.ok _) => True
  | _ => False

theorem isStored_of_ok {u : Unit} (h : (marking.next b).result? = some (.ok u)) :
    marking.IsStored := by
  cases marking with
  | done result =>
    obtain rfl : result = .ok u := Option.some.inj h
    trivial
  | storing order => exact nomatch h
  | ordering allocation =>
    cases allocation with
    | done result => cases result <;> exact nomatch h
    | _ => exact nomatch h

theorem not_isStored_of_error {e : StoreError} (h : (marking.next b).result? = some (.error e)) :
    ¬marking.IsStored := by
  cases marking with
  | done result =>
    obtain rfl : result = .error e := Option.some.inj h
    exact id
  | _ => exact id

theorem not_isStored_of_none (h : (marking.next b).result? = none) : ¬marking.IsStored := by
  cases marking with
  | done result => exact nomatch h
  | _ => exact id

/-- **What a step of the writing of a row leads to**: the rows of the pipeline are spared, or the
row is stored behind the others. -/
structure Leads (b : Bookmark) (s : Store) (marking : Marking) (s' : Store) : Prop where
  /-- The order that was claimed. -/
  placed : marking.Placed b.pipeline s'
  /-- The counter. -/
  rows : s'.RowsCounted
  /-- The rows of the pipeline. -/
  cases : s.Spares b.pipeline s' ∧ ¬marking.IsStored ∨
    marking.IsStored ∧ ∃ row, row.event = b.event ∧ s.Adds b.pipeline row s'

/-- A step that changes no row. -/
theorem leads_of_le (hs : s.RowsCounted) (hrows : s'.checkpoints = s.checkpoints)
    (hle : s.counter Sequence.checkpoints ≤ s'.counter Sequence.checkpoints)
    (hplaced : marking.Placed b.pipeline s') (hnot : ¬marking.IsStored) :
    marking.Leads b s s' where
  placed := hplaced
  rows := hs.of_le hrows hle
  cases := Or.inl ⟨Store.spares_of_le hrows hle b.pipeline, hnot⟩

theorem leads_self (hs : s.RowsCounted) (hplaced : marking.Placed b.pipeline s)
    (hnot : ¬marking.IsStored) : marking.Leads b s s :=
  leads_of_le hs rfl le_rfl hplaced hnot

/-- **A row that is beyond all rows of its pipeline** is the latest when it is stored. -/
theorem Placed.leads_stored {order : Nat} (h : (storing order).Placed b.pipeline s)
    (hs : s.RowsCounted) :
    (done (.ok ())).Leads b s
      { s with checkpoints := s.checkpoints ++ [⟨b.pipeline, b.event, order, b.time⟩] } := by
  refine ⟨trivial, fun row hrow => ?_, Or.inr ⟨trivial,
    ⟨b.pipeline, b.event, order, b.time⟩, rfl, ?_⟩⟩
  · rcases List.mem_append.mp hrow with hrow | hrow
    · exact hs row hrow
    · obtain rfl := List.mem_singleton.mp hrow
      exact h.1
  · refine ⟨?_, h.2⟩
    rw [Store.rowsOf, List.filter_append]
    simp only [List.filter_cons, beq_self_eq_true, if_true, List.filter_nil]
    rfl

/-- **The order is claimed**: it is the new value of the counter. -/
theorem leads_claimed {current : Nat} (hs : s.RowsCounted) :
    ((ordering (.claiming current)).next b).step none (ordering (.claiming current)) s =
        (ordering .retrying, s) ∨
      (ordering (.done (.ok (current + 1)))).Leads b s
          { s with counters := s.counters.insert Sequence.checkpoints (current + 1) } ∧
        ((ordering (.claiming current)).next b).step none (ordering (.claiming current)) s =
          (ordering (.done (.ok (current + 1))),
            { s with counters := s.counters.insert Sequence.checkpoints (current + 1) }) := by
  by_cases hget : s.counters.get? Sequence.checkpoints = some current
  · right
    have hcounter : s.counter Sequence.checkpoints = current := by
      rw [Store.counter, hget]
      rfl
    have hle := s.counter_le_insert Sequence.checkpoints (current + 1)
      fun _ => hcounter.le.trans (Nat.le_succ current)
    refine ⟨leads_of_le hs rfl hle ⟨?_, fun row hrow => ?_⟩ id, ?_⟩
    · simp [Store.counter]
    · exact Nat.lt_succ_of_le (hcounter ▸ hs row (List.mem_filter.mp hrow).1)
    · have hadvance : s.advanceCounter Sequence.checkpoints current (current + 1) = (true,
          { s with counters := s.counters.insert Sequence.checkpoints (current + 1) }) :=
        if_pos hget
      simp only [next, Allocation.next, Progress.within, Progress.step, Call.perform, hadvance]
      rfl
  · left
    have hadvance : s.advanceCounter Sequence.checkpoints current (current + 1) = (false, s) :=
      if_neg hget
    simp only [next, Allocation.next, Progress.within, Progress.step, Call.perform, hadvance]
    rfl

/-- **A step of the writing of a row**, whatever fails. -/
theorem Placed.step (h : marking.Placed b.pipeline s) (hs : s.RowsCounted)
    (hgo : (marking.next b).result? = none) (fault : Option StoreError) :
    ((marking.next b).step fault marking s).1.Leads b s
      ((marking.next b).step fault marking s).2 := by
  cases marking with
  | done result => cases hgo
  | storing order =>
    cases fault with
    | some e => exact leads_self hs trivial id
    | none =>
      by_cases htaken : (s.checkpoints.any fun c => c.order == order) = true
      · have hinsert : s.insertCheckpoint ⟨b.pipeline, b.event, order, b.time⟩ =
            (.error (.duplicate "checkpoint" (StoreError.number order)), s) := if_pos htaken
        simp only [next, Progress.step, Call.perform, hinsert]
        exact leads_self hs trivial id
      · have hinsert : s.insertCheckpoint ⟨b.pipeline, b.event, order, b.time⟩ = (.ok (),
            { s with checkpoints := s.checkpoints ++ [⟨b.pipeline, b.event, order, b.time⟩] }) :=
          if_neg htaken
        simp only [next, Progress.step, Call.perform, hinsert]
        exact h.leads_stored hs
  | ordering allocation =>
    cases allocation with
    | reading =>
      cases fault with
      | some e => exact leads_self hs trivial id
      | none =>
        simp only [next, Allocation.next, Progress.within, Progress.step, Call.perform]
        cases s.counters.get? Sequence.checkpoints with
        | none => exact leads_self hs trivial id
        | some current =>
          dsimp only
          cases Sequence.succ? current with
          | ok _ => exact leads_self hs trivial id
          | error _ => exact leads_self hs trivial id
    | creating =>
      cases fault with
      | some e => exact leads_self hs trivial id
      | none =>
        exact leads_of_le hs (s.checkpoints_insertCounter _ 0) (s.counter_le_insertCounter _ 0)
          trivial id
    | claiming current =>
      cases fault with
      | some e => exact leads_self hs trivial id
      | none =>
        rcases leads_claimed hs with heq | ⟨hleads, heq⟩
        · rw [heq]
          exact leads_self hs trivial id
        · rw [heq]
          exact hleads
    | retrying => exact leads_self hs trivial id
    | done result =>
      cases result with
      | error e => cases hgo
      | ok order => exact leads_self hs h id

end Marking

end EventJournal
