import EventJournal.Bench.Request
import EventJournal.Proofs.Pipeline.Rows
import EventJournal.Proofs.Visibility

/-!
# Rows that are written beside each other

Any number of calls note the progress of their pipelines on one store. Each first claims an order
and then stores its row at it, and other calls come between the two, so the rows arrive in another
order than that of their claims.

`EventJournal.Marking.Step` lists what a step of a call can be. Of what a step does, three things
matter (`EventJournal.Marker.Effect`):

| a step that | gives the call | and the rows |
|---|---|---|
| claims | the next value of the counter | stay |
| stores | nothing | get one more, at the order of the call |
| does anything else | nothing | stay |

So the orders that were given are as many as the counter has moved on, and no two calls have the
same (`EventJournal.Interleaving.Orderly`). No call finds the place of its row taken, and a call
that begins when another has returned is given a greater order.

A call comes too late for a number only if another has claimed it. The numbers that are left
therefore bound how often a call can be sent back (`EventJournal.Marking.stepsLeft`), and every
call that is given its steps returns.
-/

namespace EventJournal

/-- The row of a bookmark at its place. -/
def Bookmark.row (b : Bookmark) (order : Nat) : Checkpoint := ⟨b.pipeline, b.event, order, b.time⟩

/-! ### Steps -/

namespace Marking

/-- **What a step of the writing of a row can be.** -/
inductive Step (b : Bookmark) : Marking → Store → Marking → Store → Prop
  /-- There is no counter. -/
  | misses {s} : s.counters.get? Sequence.checkpoints = none →
    Step b (ordering .reading) s (ordering .creating) s
  /-- The counter is read. -/
  | reads {s current} : s.counters.get? Sequence.checkpoints = some current →
    current < Text.maxWord → Step b (ordering .reading) s (ordering (.claiming current)) s
  /-- The counter is read, and there is no number after it. -/
  | readsLast {s current e} : s.counters.get? Sequence.checkpoints = some current →
    ¬current < Text.maxWord → Step b (ordering .reading) s (ordering (.done (.error e))) s
  /-- The counter is made. -/
  | creates {s} : s.counters.get? Sequence.checkpoints = none →
    Step b (ordering .creating) s (ordering .reading)
      { s with counters := s.counters.insert Sequence.checkpoints 0 }
  /-- Another call has made the counter. -/
  | createsLate {s current} : s.counters.get? Sequence.checkpoints = some current →
    Step b (ordering .creating) s (ordering .reading) s
  /-- The order is claimed. -/
  | claims {s current} : s.counters.get? Sequence.checkpoints = some current →
    Step b (ordering (.claiming current)) s (ordering (.done (.ok (current + 1))))
      { s with counters := s.counters.insert Sequence.checkpoints (current + 1) }
  /-- Another call has claimed it. -/
  | claimsLate {s current} : s.counters.get? Sequence.checkpoints ≠ some current →
    Step b (ordering (.claiming current)) s (ordering .retrying) s
  /-- Another attempt begins. -/
  | retries {s} : Step b (ordering .retrying) s (ordering .reading) s
  /-- The call goes on to store its row. -/
  | proceeds {s order} : Step b (ordering (.done (.ok order))) s (storing order) s
  /-- The row is stored. -/
  | stores {s order} : (∀ row ∈ s.checkpoints, row.order ≠ order) →
    Step b (storing order) s (done (.ok ()))
      { s with checkpoints := s.checkpoints ++ [b.row order] }
  /-- Another row is at the place of the row. -/
  | clashes {s order e} : (∃ row ∈ s.checkpoints, row.order = order) →
    Step b (storing order) s (done (.error e)) s
  /-- The call is over. -/
  | rests {marking s} : (marking.next b).result?.isSome → Step b marking s marking s

/-- **There is no other step.** -/
theorem step_next (b : Bookmark) (marking : Marking) (s : Store) :
    Step b marking s ((marking.next b).step none marking s).1
      ((marking.next b).step none marking s).2 := by
  cases marking with
  | ordering allocation =>
    cases allocation with
    | reading =>
      simp only [next, Allocation.next, Progress.within, Progress.step, Call.perform]
      cases hget : s.counters.get? Sequence.checkpoints with
      | none => exact .misses hget
      | some current =>
        dsimp only
        by_cases hlt : current < Text.maxWord
        · rw [Sequence.succ?, if_pos hlt]
          exact .reads hget hlt
        · rw [Sequence.succ?, if_neg hlt]
          exact .readsLast hget hlt
    | creating =>
      simp only [next, Allocation.next, Progress.within, Progress.step, Call.perform,
        Store.insertCounter]
      cases hget : s.counters.get? Sequence.checkpoints with
      | none =>
        rw [SortedMap.contains_eq_false_iff.mpr hget]
        exact .creates hget
      | some current =>
        rw [SortedMap.contains_eq_true_iff.mpr ⟨current, hget⟩]
        exact .createsLate hget
    | claiming current =>
      simp only [next, Allocation.next, Progress.within, Progress.step, Call.perform,
        Store.advanceCounter]
      by_cases hget : s.counters.get? Sequence.checkpoints = some current
      · rw [if_pos hget]
        exact .claims hget
      · rw [if_neg hget]
        exact .claimsLate hget
    | retrying => exact .retries
    | done result =>
      cases result with
      | ok order => exact .proceeds
      | error e => exact .rests rfl
  | storing order =>
    simp only [next, Progress.step, Call.perform, Store.insertCheckpoint]
    by_cases htaken : ∃ row ∈ s.checkpoints, row.order = order
    · rw [if_pos (by simpa using htaken)]
      exact .clashes htaken
    · rw [if_neg (by simpa using htaken)]
      exact .stores fun row hrow heq => htaken ⟨row, hrow, heq⟩
  | done result => exact .rests rfl

/-! ### How many steps are left -/

/-- The steps that claims can still take, before the counter reaches the number `last`. -/
def claimSteps (last : Nat) : (value : Option Nat) → Nat
  | none => 3 * last + 2
  | some current => 3 * (last - current)

/-- **The steps that the writing of a row can still take**, if the counter has a value and does not
go beyond the number `last`. -/
def stepsLeft (last : Nat) (value : Option Nat) : Marking → Nat
  | ordering .reading => claimSteps last value + 1
  | ordering .creating => 3 * (last - value.getD 0) + 2
  | ordering (.claiming current) =>
    if value = some current then 3 * (last - current) else claimSteps last value + 3
  | ordering .retrying => claimSteps last value + 2
  | ordering (.done (.ok _)) => 2
  | storing _ => 1
  | ordering (.done (.error _)) | done _ => 0

/-- A counter is made, or goes on by one, and does not go beyond the number `last`. -/
def Advances (last : Nat) (value value' : Option Nat) : Prop :=
  value' = value ∨ (value = none ∧ value' = some 0) ∨
    ∃ current < last, value = some current ∧ value' = some (current + 1)

theorem claimSteps_le {last : Nat} {value value' : Option Nat} (h : Advances last value value') :
    claimSteps last value' ≤ claimSteps last value := by
  rcases h with rfl | ⟨rfl, rfl⟩ | ⟨current, hlt, rfl, rfl⟩ <;> simp only [claimSteps] <;> omega

/-- **Whom another call gets ahead of** has no more steps left than before. -/
theorem stepsLeft_le {last : Nat} {value value' : Option Nat} (h : Advances last value value')
    (marking : Marking) : marking.stepsLeft last value' ≤ marking.stepsLeft last value := by
  have hle := claimSteps_le h
  cases marking with
  | ordering allocation =>
    cases allocation with
    | reading => exact Nat.succ_le_succ hle
    | creating =>
      simp only [stepsLeft]
      rcases h with rfl | ⟨rfl, rfl⟩ | ⟨current, hlt, rfl, rfl⟩
      · exact le_rfl
      · exact le_rfl
      · simp only [Option.getD_some]
        omega
    | claiming n =>
      simp only [stepsLeft]
      rcases h with rfl | ⟨rfl, rfl⟩ | ⟨current, hlt, rfl, rfl⟩
      · exact le_rfl
      · simp only [claimSteps, Option.some.injEq, reduceCtorEq, if_false]
        split <;> omega
      · -- the other call has used up one claim, which makes up for the attempt that is lost
        simp only [claimSteps, Option.some.injEq]
        split <;> split <;> omega
    | retrying => exact Nat.add_le_add_right hle 2
    | done result => cases result <;> exact le_rfl
  | storing order => exact le_rfl
  | done result => exact le_rfl

theorem Step.advances {b : Bookmark} {marking marking' : Marking} {s s' : Store} {last : Nat}
    (h : Step b marking s marking' s')
    (hlast : (∃ current, marking = ordering (.claiming current)) →
      s.counter Sequence.checkpoints < last) :
    Advances last (s.counters.get? Sequence.checkpoints)
      (s'.counters.get? Sequence.checkpoints) := by
  cases h with
  | creates hget =>
    exact Or.inr (Or.inl ⟨hget, SortedMap.get?_insert_self _ _ _⟩)
  | claims hget =>
    have hlt := hlast ⟨_, rfl⟩
    rw [Store.counter, hget] at hlt
    exact Or.inr (Or.inr ⟨_, hlt, hget, SortedMap.get?_insert_self _ _ _⟩)
  | _ => exact Or.inl rfl

theorem stepsLeft_of_result? {b : Bookmark} {marking : Marking}
    (h : (marking.next b).result?.isSome) (last : Nat) (value : Option Nat) :
    marking.stepsLeft last value = 0 := by
  cases marking with
  | ordering allocation =>
    cases allocation with
    | done result =>
      cases result with
      | ok order => cases h
      | error e => rfl
    | _ => cases h
  | storing order => cases h
  | done result => rfl

/-- **A call that takes a step** has one step less to take. -/
theorem Step.stepsLeft_le {b : Bookmark} {marking marking' : Marking} {s s' : Store} {last : Nat}
    (h : Step b marking s marking' s')
    (hlast : (∃ current, marking = ordering (.claiming current)) →
      s.counter Sequence.checkpoints < last) :
    marking'.stepsLeft last (s'.counters.get? Sequence.checkpoints) ≤
      marking.stepsLeft last (s.counters.get? Sequence.checkpoints) - 1 := by
  cases h with
  | misses hget => simp [stepsLeft, claimSteps, hget]
  | reads hget => simp [stepsLeft, claimSteps, hget]
  | readsLast => exact Nat.zero_le _
  | creates hget => simp [stepsLeft, claimSteps, hget, SortedMap.get?_insert_self]
  | createsLate hget => simp [stepsLeft, claimSteps, hget]
  | claims hget =>
    have hlt := hlast ⟨_, rfl⟩
    rw [Store.counter, hget, Option.getD_some] at hlt
    simp only [stepsLeft, hget, if_true]
    omega
  | claimsLate hget => simp [stepsLeft, if_neg hget]
  | retries => exact le_rfl
  | proceeds => exact le_rfl
  | stores => exact le_rfl
  | clashes => exact le_rfl
  | rests hover => rw [stepsLeft_of_result? hover]

theorem result?_of_stepsLeft {b : Bookmark} {marking : Marking} {value : Option Nat} {last : Nat}
    (h : marking.stepsLeft last value = 0)
    (hlast : (∃ current, marking = ordering (.claiming current)) → value.getD 0 < last) :
    (marking.next b).result?.isSome := by
  cases marking with
  | ordering allocation =>
    cases allocation with
    | claiming current =>
      have := hlast ⟨current, rfl⟩
      simp only [stepsLeft] at h
      split at h
      · next hvalue =>
        rw [hvalue, Option.getD_some] at this
        omega
      · omega
    | done result =>
      cases result with
      | ok order => cases h
      | error e => rfl
    | _ => simp [stepsLeft] at h
  | storing order => cases h
  | done result => rfl

/-! ### Calls -/

/-- The order that has been claimed for a row, until the row is stored. -/
def order? : Marking → Option Nat
  | ordering (.done (.ok order)) | storing order => some order
  | _ => none

theorem order?_of_result? {b : Bookmark} {marking : Marking}
    (h : (marking.next b).result?.isSome) : marking.order? = none := by
  cases marking with
  | ordering allocation =>
    cases allocation with
    | done result =>
      cases result with
      | ok order => cases h
      | error e => rfl
    | _ => cases h
  | storing order => cases h
  | done result => rfl

end Marking

/-- **A call that notes progress**, and how far it has come. -/
structure Marker where
  /-- What is noted. -/
  bookmark : Bookmark
  /-- How far the call has come. -/
  marking : Marking
  /-- The order that the call was given, if it was given one. -/
  order : Option Nat

namespace Marker

/-- A call that has not begun. -/
def start (b : Bookmark) : Marker := ⟨b, .start, none⟩

/-- The call at another control state. -/
def goTo (m : Marker) (marking : Marking) : Marker :=
  { m with marking, order := m.order.or marking.order? }

/-- What a call does next. -/
def next (m : Marker) : Progress Marker (Except StoreError Unit) :=
  (m.marking.next m.bookmark).within m.goTo .finished

/-- What a call is told in the end. -/
def result? (m : Marker) : Option (Except StoreError Unit) := m.next.result?

/-- The row that a call has stored. -/
def row? (m : Marker) : Option Checkpoint :=
  match m.marking with
  | .done (.ok _) => m.order.map m.bookmark.row
  | _ => none

variable {m m' : Marker} {s s' : Store}

theorem result?_eq (m : Marker) : m.result? = (m.marking.next m.bookmark).result? := by
  unfold result? next
  cases m.marking.next m.bookmark <;> rfl

theorem goTo_of_result? (h : (m.marking.next m.bookmark).result?.isSome) :
    m.goTo m.marking = m := by
  rw [goTo, Marking.order?_of_result? h, Option.or_none]

/-- **The order is only kept in mind**: a call does what the writing of its row does. -/
theorem step_next (m : Marker) (s : Store) :
    m.next.step none m s =
      (m.goTo ((m.marking.next m.bookmark).step none m.marking s).1,
        ((m.marking.next m.bookmark).step none m.marking s).2) := by
  cases hr : (m.marking.next m.bookmark).result? with
  | none => exact Progress.step_within none hr m.goTo .finished m.marking m s
  | some result =>
    have hstep := Progress.step_within_finished none (m.marking.next m.bookmark) m.goTo id
      m.marking s
    rw [goTo_of_result? (Option.isSome_of_eq_some hr)] at hstep
    exact hstep

/-- **Nothing has failed**, and the call knows its order since the claim. -/
def Sound (m : Marker) : Prop :=
  match m.marking with
  | .ordering (.done (.ok order)) | .storing order => m.order = some order
  | .done (.ok _) => m.order.isSome
  | .ordering (.done (.error _)) | .done (.error _) => False
  | _ => m.order = none

theorem sound_start (b : Bookmark) : (start b).Sound := rfl

/-- A call has left a row when it has returned, and it does not return with a failure. -/
theorem Sound.row?_isSome_iff (h : m.Sound) : m.row?.isSome ↔ m.result?.isSome := by
  rw [result?_eq]
  rcases m with ⟨b, marking, order⟩
  cases marking with
  | ordering allocation =>
    refine iff_of_false (by simp [row?]) ?_
    cases allocation with
    | done result =>
      cases result with
      | ok n => exact nofun
      | error e => exact absurd h id
    | _ => exact nofun
  | storing n => exact iff_of_false nofun nofun
  | done result =>
    cases result with
    | ok u => exact iff_of_true (by rw [row?, Option.isSome_map]; exact h) rfl
    | error e => exact absurd h id

theorem Sound.ne_error (h : m.Sound) (e : StoreError) : m.result? ≠ some (.error e) := by
  rw [result?_eq]
  rcases m with ⟨b, marking, order⟩
  cases marking with
  | ordering allocation =>
    cases allocation with
    | done result =>
      cases result with
      | ok n => exact nofun
      | error e => exact absurd h id
    | _ => exact nofun
  | storing n => exact nofun
  | done result =>
    cases result with
    | ok u => exact nofun
    | error e => exact absurd h id

/-- The row of a call has the order of the call. -/
theorem order_eq_of_row? {row : Checkpoint} (h : m.row? = some row) :
    m.order = some row.order ∧ row = m.bookmark.row row.order := by
  rw [row?] at h
  split at h
  · obtain ⟨order, horder, rfl⟩ := Option.map_eq_some_iff.mp h
    exact ⟨horder, rfl⟩
  · cases h

/-- **What a step of a call does**, seen from the counter of the rows and the rows: orders are
given to the call, and rows of it are stored. -/
structure Effect (m : Marker) (s : Store) (given : List Nat) (stored : List Checkpoint)
    (m' : Marker) (s' : Store) : Prop where
  /-- The order of the call. -/
  order_eq : m'.order.toList = m.order.toList ++ given
  /-- The row of the call. -/
  row?_eq : m'.row?.toList = m.row?.toList ++ stored
  /-- One order at most is given, which is the next one. -/
  given_cases : given = [] ∨ given = [s.counter Sequence.checkpoints + 1]
  /-- The counter goes on by one for each order. -/
  counter_eq : s'.counter Sequence.checkpoints = s.counter Sequence.checkpoints + given.length
  /-- The rows. -/
  rows_eq : s'.checkpoints = s.checkpoints ++ stored

/-- A step that leaves the rows and their counter alone. -/
theorem effect_nothing (horder : m'.order = m.order) (hrow : m'.row? = m.row?)
    (hcounter : s'.counter Sequence.checkpoints = s.counter Sequence.checkpoints)
    (hrows : s'.checkpoints = s.checkpoints) : m.Effect s [] [] m' s' where
  order_eq := by rw [horder, List.append_nil]
  row?_eq := by rw [hrow, List.append_nil]
  given_cases := Or.inl rfl
  counter_eq := hcounter
  rows_eq := by rw [hrows, List.append_nil]

/-- **A call that has room and whose place is free** does not fail. -/
theorem Sound.effect (h : m.Sound) {marking : Marking}
    (hstep : Marking.Step m.bookmark m.marking s marking s')
    (hroom : m.order = none → s.counter Sequence.checkpoints < Text.maxWord)
    (hfree : ∀ order, m.marking = .storing order → ∀ row ∈ s.checkpoints, row.order ≠ order) :
    (m.goTo marking).Sound ∧ ∃ given stored, m.Effect s given stored (m.goTo marking) s' := by
  rcases m with ⟨b, a, order⟩
  have hcounter : ∀ {current}, s.counters.get? Sequence.checkpoints = some current →
      s.counter Sequence.checkpoints = current := fun hget => by
    rw [Store.counter, hget]
    rfl
  simp only at hstep hroom hfree
  cases hstep with
  | misses | reads | createsLate | claimsLate | retries =>
    obtain rfl : order = none := h
    exact ⟨rfl, [], [], effect_nothing rfl rfl rfl rfl⟩
  | readsLast hget hlast => exact absurd (hcounter hget ▸ hroom h) hlast
  | creates hget =>
    obtain rfl : order = none := h
    refine ⟨rfl, [], [], effect_nothing rfl rfl ?_ rfl⟩
    rw [Store.counter_insert, if_pos rfl, Store.counter, hget]
    rfl
  | claims hget =>
    obtain rfl : order = none := h
    refine ⟨rfl, [_], [], rfl, rfl, Or.inr (by rw [hcounter hget]), ?_, ?_⟩
    · rw [Store.counter_insert, if_pos rfl, hcounter hget]
      rfl
    · exact (List.append_nil _).symm
  | proceeds =>
    obtain rfl : order = some _ := h
    exact ⟨rfl, [], [], effect_nothing rfl rfl rfl rfl⟩
  | stores hplace =>
    obtain rfl : order = some _ := h
    exact ⟨rfl, [], [b.row _], rfl, rfl, Or.inl rfl, rfl, rfl⟩
  | clashes htaken =>
    obtain ⟨row, hrow, heq⟩ := htaken
    exact absurd heq (hfree _ rfl row hrow)
  | rests hover =>
    rw [goTo_of_result? (m := ⟨b, marking, order⟩) hover]
    exact ⟨h, [], [], effect_nothing rfl rfl rfl rfl⟩

end Marker

/-! ### The orders and the rows -/

namespace Interleaving

/-- Calls that have not begun. -/
def ofBookmarks (s : Store) (bookmarks : List Bookmark) : Interleaving Marker :=
  ⟨s, bookmarks.map Marker.start⟩

/-- The orders that were given to calls. -/
def orders (x : Interleaving Marker) : List Nat := x.states.filterMap (·.order)

/-- The rows that calls have stored. -/
def rows (x : Interleaving Marker) : List Checkpoint := x.states.filterMap Marker.row?

/-- **What is known while calls run beside each other.** -/
structure Orderly (s₀ : Store) (bookmarks : List Bookmark) (x : Interleaving Marker) : Prop where
  /-- Each call has its bookmark. -/
  bookmarks_eq : x.states.map (·.bookmark) = bookmarks
  /-- No call has failed. -/
  sound : ∀ m ∈ x.states, m.Sound
  /-- The counter has moved on by one for each order that was given. -/
  counter_eq : x.store.counter Sequence.checkpoints =
    s₀.counter Sequence.checkpoints + x.orders.length
  /-- The orders that were given are those that the counter has passed. -/
  order_mem : ∀ order ∈ x.orders, s₀.counter Sequence.checkpoints < order ∧
    order ≤ x.store.counter Sequence.checkpoints
  /-- No two calls have the same order. -/
  nodup : x.orders.Nodup
  /-- The rows that are stored. -/
  rows_perm : x.store.checkpoints.Perm (s₀.checkpoints ++ x.rows)

variable {s₀ : Store} {bookmarks : List Bookmark} {x : Interleaving Marker} {i j : Nat}
  {m m' : Marker}

theorem orders_ofBookmarks (s : Store) (bookmarks : List Bookmark) :
    (ofBookmarks s bookmarks).orders = [] := by
  rw [orders, ofBookmarks, List.filterMap_map]
  exact List.filterMap_eq_nil_iff.mpr fun _ _ => rfl

theorem rows_ofBookmarks (s : Store) (bookmarks : List Bookmark) :
    (ofBookmarks s bookmarks).rows = [] := by
  rw [rows, ofBookmarks, List.filterMap_map]
  exact List.filterMap_eq_nil_iff.mpr fun _ _ => rfl

theorem getElem?_ofBookmarks (s : Store) {i : Nat} (hi : i < bookmarks.length) :
    (ofBookmarks s bookmarks).states[i]? = some (Marker.start bookmarks[i]) := by
  rw [ofBookmarks, List.getElem?_map, List.getElem?_eq_getElem hi]
  rfl

theorem orderly_ofBookmarks (s₀ : Store) (bookmarks : List Bookmark) :
    Orderly s₀ bookmarks (ofBookmarks s₀ bookmarks) where
  bookmarks_eq := by
    rw [ofBookmarks, List.map_map]
    exact List.map_id bookmarks
  sound m hm := by
    obtain ⟨b, -, rfl⟩ := List.mem_map.mp hm
    exact Marker.sound_start b
  counter_eq := by rw [orders_ofBookmarks]; rfl
  order_mem := by rw [orders_ofBookmarks]; exact nofun
  nodup := by rw [orders_ofBookmarks]; exact List.nodup_nil
  rows_perm := by rw [rows_ofBookmarks, List.append_nil]; exact List.Perm.refl _

theorem Orderly.length_eq (h : x.Orderly s₀ bookmarks) : x.states.length = bookmarks.length := by
  rw [← h.bookmarks_eq, List.length_map]

/-- Two calls have different orders. -/
theorem Orderly.order_ne (h : x.Orderly s₀ bookmarks) (hij : i ≠ j) (hi : x.states[i]? = some m)
    (hj : x.states[j]? = some m') {order : Nat} (hm : m.order = some order) :
    m'.order ≠ some order := by
  have hapart := List.pairwise_filterMap.mp h.nodup
  intro hm'
  exact pairwise_getElem? (fun hne n hn n' hn' heq => hne n' hn' n hn heq.symm) hapart hij hi hj
    order hm order hm' rfl

/-- A call that was given no order finds a number that it can be given. -/
theorem Orderly.counter_lt (h : x.Orderly s₀ bookmarks) (hm : m ∈ x.states)
    (hnone : m.order = none) :
    x.store.counter Sequence.checkpoints <
      s₀.counter Sequence.checkpoints + bookmarks.length := by
  have hlt : x.orders.length < x.states.length :=
    List.length_filterMap_lt_length_iff_exists.mpr ⟨m, hm, hnone⟩
  rw [h.length_eq] at hlt
  rw [h.counter_eq]
  exact Nat.add_lt_add_left hlt _

/-- **The place of a row is free** until it is stored. -/
theorem Orderly.order_ne_of_mem (h : x.Orderly s₀ bookmarks) (hs : s₀.RowsCounted)
    (hi : x.states[i]? = some m) {order : Nat} (hm : m.order = some order) (hnone : m.row? = none)
    {row : Checkpoint} (hrow : row ∈ x.store.checkpoints) : row.order ≠ order := by
  rintro rfl
  rcases List.mem_append.mp (h.rows_perm.mem_iff.mp hrow) with hold | hnew
  · have hlt := (h.order_mem row.order
      (List.mem_filterMap.mpr ⟨m, List.mem_of_getElem? hi, hm⟩)).1
    exact absurd (hs row hold) (Nat.not_le_of_lt hlt)
  · obtain ⟨m', hm', hstored⟩ := List.mem_filterMap.mp hnew
    obtain ⟨j, hj⟩ := List.getElem?_of_mem hm'
    have hij : i ≠ j := by
      rintro rfl
      obtain rfl := Option.some.inj (hi.symm.trans hj)
      cases hnone.symm.trans hstored
    exact h.order_ne hij hi hj hm (Marker.order_eq_of_row? hstored).1

/-- **What a step does.** -/
theorem Orderly.effect (h : x.Orderly s₀ bookmarks) (hs : s₀.RowsCounted)
    (hroom : s₀.counter Sequence.checkpoints + bookmarks.length ≤ Text.maxWord)
    (hi : x.states[i]? = some m) :
    (m.next.step none m x.store).1.Sound ∧
      ∃ given stored, m.Effect x.store given stored (m.next.step none m x.store).1
        (m.next.step none m x.store).2 := by
  have hmem := List.mem_of_getElem? hi
  have hsound := h.sound m hmem
  rw [Marker.step_next]
  refine hsound.effect (Marking.step_next _ _ _)
    (fun hnone => (h.counter_lt hmem hnone).trans_le hroom) fun order hstoring row hrow => ?_
  rw [Marker.Sound, hstoring] at hsound
  exact h.order_ne_of_mem hs hi hsound (by rw [Marker.row?, hstoring]) hrow

theorem Orderly.step (h : x.Orderly s₀ bookmarks) (hs : s₀.RowsCounted)
    (hroom : s₀.counter Sequence.checkpoints + bookmarks.length ≤ Text.maxWord)
    (hi : x.states[i]? = some m) :
    Orderly s₀ bookmarks ⟨(m.next.step none m x.store).2,
      x.states.set i (m.next.step none m x.store).1⟩ := by
  obtain ⟨hsound, given, stored, heffect⟩ := h.effect hs hroom hi
  have hbookmark : (m.next.step none m x.store).1.bookmark = m.bookmark := by
    rw [Marker.step_next]
    rfl
  generalize (m.next.step none m x.store).1 = m' at hsound heffect hbookmark ⊢
  generalize (m.next.step none m x.store).2 = s' at heffect ⊢
  have horders : (orders ⟨s', x.states.set i m'⟩).Perm (x.orders ++ given) :=
    filterMap_set_perm hi heffect.order_eq
  have hstored : (rows ⟨s', x.states.set i m'⟩).Perm (x.rows ++ stored) :=
    filterMap_set_perm hi heffect.row?_eq
  have hle : s₀.counter Sequence.checkpoints ≤ x.store.counter Sequence.checkpoints :=
    h.counter_eq ▸ Nat.le_add_right _ _
  have hgiven : ∀ order ∈ given, order = x.store.counter Sequence.checkpoints + 1 ∧
      order = s'.counter Sequence.checkpoints := by
    intro order hmem
    rcases heffect.given_cases with rfl | rfl
    · cases hmem
    · obtain rfl := List.mem_singleton.mp hmem
      exact ⟨rfl, heffect.counter_eq.symm⟩
  refine ⟨(map_set_of_eq hi hbookmark).trans h.bookmarks_eq, forall_mem_set h.sound hsound, ?_,
    fun order hmem => ?_, horders.nodup_iff.mpr ?_, ?_⟩
  · rw [horders.length_eq, List.length_append, ← Nat.add_assoc, ← h.counter_eq]
    exact heffect.counter_eq
  · change _ ∧ order ≤ s'.counter Sequence.checkpoints
    rcases List.mem_append.mp (horders.mem_iff.mp hmem) with hmem | hmem
    · have := h.order_mem order hmem
      have := heffect.counter_eq
      omega
    · have := hgiven order hmem
      omega
  · refine List.nodup_append.mpr ⟨h.nodup, ?_, fun order hmem new hnew => ?_⟩
    · rcases heffect.given_cases with rfl | rfl
      · exact List.nodup_nil
      · exact List.nodup_singleton _
    · have := h.order_mem order hmem
      have := hgiven new hnew
      omega
  · change s'.checkpoints.Perm _
    rw [heffect.rows_eq]
    refine (h.rows_perm.append_right stored).trans ?_
    rw [List.append_assoc]
    exact hstored.symm.append_left _

theorem Orderly.run (h : x.Orderly s₀ bookmarks) (hs : s₀.RowsCounted)
    (hroom : s₀.counter Sequence.checkpoints + bookmarks.length ≤ Text.maxWord)
    (schedule : List Nat) : Orderly s₀ bookmarks (x.run Marker.next schedule) :=
  run_induction schedule h fun _ _ _ h hi => h.step hs hroom hi

/-! ### Order and time -/

/-- **A call that was given no order yet** will be given one that is beyond the counter. -/
theorem Orderly.counter_lt_of_run (h : x.Orderly s₀ bookmarks) (hs : s₀.RowsCounted)
    (hroom : s₀.counter Sequence.checkpoints + bookmarks.length ≤ Text.maxWord)
    (hj : x.states[j]? = some m) (hnone : m.order = none) {schedule : List Nat}
    (hj' : (x.run Marker.next schedule).states[j]? = some m') {order : Nat}
    (horder : m'.order = some order) : x.store.counter Sequence.checkpoints < order := by
  have hrun := @run_induction _ _ Marker.next (fun y => Orderly s₀ bookmarks y ∧
    x.store.counter Sequence.checkpoints ≤ y.store.counter Sequence.checkpoints ∧
    ∀ m, y.states[j]? = some m → ∀ order ∈ m.order.toList,
      x.store.counter Sequence.checkpoints < order) x schedule ?_ ?_
  · exact hrun.2.2 m' hj' order (by rw [horder]; exact List.mem_singleton_self order)
  · refine ⟨h, le_rfl, fun m₁ hj₁ order horder => ?_⟩
    obtain rfl := Option.some.inj (hj.symm.trans hj₁)
    rw [hnone] at horder
    cases horder
  · rintro y i w ⟨hy, hle, hbeyond⟩ hi
    obtain ⟨-, given, stored, heffect⟩ := hy.effect hs hroom hi
    refine ⟨hy.step hs hroom hi, ?_, fun m₁ hj₁ order horder => ?_⟩
    · exact hle.trans (heffect.counter_eq ▸ Nat.le_add_right _ _)
    · by_cases hij : i = j
      · subst hij
        rw [List.getElem?_set_self (List.getElem?_eq_some_iff.mp hi).1] at hj₁
        obtain rfl := Option.some.inj hj₁
        rw [heffect.order_eq] at horder
        rcases List.mem_append.mp horder with horder | horder
        · exact hbeyond w hi order horder
        · rcases heffect.given_cases with rfl | rfl
          · cases horder
          · obtain rfl := List.mem_singleton.mp horder
            exact Nat.lt_succ_of_le hle
      · rw [List.getElem?_set_ne hij] at hj₁
        exact hbeyond m₁ hj₁ order horder

/-! ### The latest rows -/

theorem Orderly.order_mem_of_row (h : x.Orderly s₀ bookmarks) {row : Checkpoint}
    (hrow : row ∈ x.rows) : s₀.counter Sequence.checkpoints < row.order := by
  obtain ⟨m, hm, hstored⟩ := List.mem_filterMap.mp hrow
  exact (h.order_mem row.order
    (List.mem_filterMap.mpr ⟨m, hm, (Marker.order_eq_of_row? hstored).1⟩)).1

/-- **No two rows have the same order.** -/
theorem Orderly.rows_nodup (h : x.Orderly s₀ bookmarks) (hs : s₀.RowsCounted)
    (hnodup : (s₀.checkpoints.map (·.order)).Nodup) :
    (x.store.checkpoints.map (·.order)).Nodup := by
  have hperm := h.rows_perm.map (·.order)
  rw [List.map_append] at hperm
  refine hperm.nodup_iff.mpr (List.nodup_append.mpr ⟨hnodup, ?_, fun order hold new hnew => ?_⟩)
  · refine List.pairwise_map.mpr (List.pairwise_filterMap.mpr ?_)
    refine (List.pairwise_filterMap.mp h.nodup).imp fun hne row hrow row' hrow' => ?_
    exact hne _ (Marker.order_eq_of_row? hrow).1 _ (Marker.order_eq_of_row? hrow').1
  · obtain ⟨row, hrow, rfl⟩ := List.mem_map.mp hold
    obtain ⟨row', hrow', rfl⟩ := List.mem_map.mp hnew
    exact Nat.ne_of_lt ((hs row hrow).trans_lt (h.order_mem_of_row hrow'))

/-- **A row is displaced for good** by the row of a call that began when the first had returned. -/
theorem Orderly.displaced {y : Interleaving Marker} (hx : x.Orderly s₀ bookmarks)
    (hs : s₀.RowsCounted)
    (hroom : s₀.counter Sequence.checkpoints + bookmarks.length ≤ Text.maxWord)
    (hi : x.states[i]? = some m) (hm : m.result?.isSome)
    (hbegin : ∃ w, x.states[j]? = some w ∧ w.order = none) {schedule : List Nat}
    (hy : x.run Marker.next schedule = y) (hj : y.states[j]? = some m')
    (hm' : m'.result?.isSome) (hname : m'.bookmark.pipeline = m.bookmark.pipeline) :
    y.store.latestCheckpoint m.bookmark.pipeline ≠ m.row? := by
  subst hy
  have hrun := hx.run hs hroom schedule
  obtain ⟨w, hw, hnone⟩ := hbegin
  obtain ⟨row, hrow⟩ := Option.isSome_iff_exists.mp
    ((hx.sound m (List.mem_of_getElem? hi)).row?_isSome_iff.mpr hm)
  have hmem' := List.mem_of_getElem? hj
  obtain ⟨row', hrow'⟩ := Option.isSome_iff_exists.mp
    ((hrun.sound m' hmem').row?_isSome_iff.mpr hm')
  obtain ⟨horder, -⟩ := Marker.order_eq_of_row? hrow
  obtain ⟨horder', heq'⟩ := Marker.order_eq_of_row? hrow'
  -- the order of the first was given before the second began
  have hle : row.order ≤ x.store.counter Sequence.checkpoints :=
    (hx.order_mem _ (List.mem_filterMap.mpr ⟨m, List.mem_of_getElem? hi, horder⟩)).2
  have hlt := hx.counter_lt_of_run hs hroom hw hnone hj horder'
  have hstored : row' ∈ (x.run Marker.next schedule).store.rowsOf m.bookmark.pipeline := by
    refine List.mem_filter.mpr ⟨hrun.rows_perm.mem_iff.mpr (List.mem_append_right _ ?_), ?_⟩
    · exact List.mem_filterMap.mpr ⟨m', hmem', hrow'⟩
    · rw [heq']
      exact beq_iff_eq.mpr hname
  rw [hrow, Store.latestCheckpoint_eq]
  intro hlatest
  have := le_of_lastGreatest hlatest hstored
  omega

/-! ### Returning -/

/-- The steps that a call can still take. -/
def stepsLeft (last : Nat) (x : Interleaving Marker) (m : Marker) : Nat :=
  m.marking.stepsLeft last (x.store.counters.get? Sequence.checkpoints)

/-- A call that claims an order finds one that is left. -/
theorem Orderly.counter_lt_of_claiming (h : x.Orderly s₀ bookmarks) (hm : m ∈ x.states)
    (hclaims : ∃ current, m.marking = .ordering (.claiming current)) :
    x.store.counter Sequence.checkpoints <
      s₀.counter Sequence.checkpoints + bookmarks.length := by
  obtain ⟨current, hclaims⟩ := hclaims
  have hsound := h.sound m hm
  rw [Marker.Sound, hclaims] at hsound
  exact h.counter_lt hm hsound

/-- **With each step of its own a call has one less to take**, and with none of the others more. -/
theorem Orderly.stepsLeft_step (h : x.Orderly s₀ bookmarks) (hi : x.states[i]? = some m)
    (j : Nat) :
    ∃ m', (x.step Marker.next j).states[i]? = some m' ∧
      (x.step Marker.next j).stepsLeft (s₀.counter Sequence.checkpoints + bookmarks.length) m' ≤
        x.stepsLeft (s₀.counter Sequence.checkpoints + bookmarks.length) m -
          if j = i then 1 else 0 := by
  cases hj : x.states[j]? with
  | none =>
    have hji : j ≠ i := by
      rintro rfl
      cases hi.symm.trans hj
    rw [step_eq_self hj, if_neg hji]
    exact ⟨m, hi, le_rfl⟩
  | some w =>
    have hw := List.mem_of_getElem? hj
    have hstep := Marking.step_next w.bookmark w.marking x.store
    rw [step_of_getElem? hj, Marker.step_next]
    by_cases hji : j = i
    · subst hji
      obtain rfl := Option.some.inj (hi.symm.trans hj)
      refine ⟨_, List.getElem?_set_self (List.getElem?_eq_some_iff.mp hj).1, ?_⟩
      rw [if_pos rfl]
      exact hstep.stepsLeft_le (h.counter_lt_of_claiming hw)
    · refine ⟨m, (List.getElem?_set_ne hji).trans hi, ?_⟩
      rw [if_neg hji]
      exact Marking.stepsLeft_le (hstep.advances (h.counter_lt_of_claiming hw)) m.marking

theorem Orderly.stepsLeft_run (h : x.Orderly s₀ bookmarks) (hs : s₀.RowsCounted)
    (hroom : s₀.counter Sequence.checkpoints + bookmarks.length ≤ Text.maxWord)
    (hi : x.states[i]? = some m) (schedule : List Nat) :
    ∃ m', (x.run Marker.next schedule).states[i]? = some m' ∧
      (x.run Marker.next schedule).stepsLeft
          (s₀.counter Sequence.checkpoints + bookmarks.length) m' ≤
        x.stepsLeft (s₀.counter Sequence.checkpoints + bookmarks.length) m - schedule.count i := by
  induction schedule generalizing x m with
  | nil => exact ⟨m, hi, le_rfl⟩
  | cons j rest ih =>
    obtain ⟨m₁, hi₁, hle₁⟩ := h.stepsLeft_step hi j
    have hstep : (x.step Marker.next j).Orderly s₀ bookmarks := h.run hs hroom [j]
    obtain ⟨m₂, hi₂, hle₂⟩ := ih hstep hi₁
    refine ⟨m₂, hi₂, hle₂.trans ?_⟩
    rw [List.count_cons]
    simp only [beq_iff_eq]
    omega

/-- **A call returns** once it has had its steps. -/
theorem Orderly.returns (h : x.Orderly s₀ bookmarks) (hs : s₀.RowsCounted)
    (hroom : s₀.counter Sequence.checkpoints + bookmarks.length ≤ Text.maxWord)
    (hi : x.states[i]? = some m) {schedule : List Nat}
    (hsteps : x.stepsLeft (s₀.counter Sequence.checkpoints + bookmarks.length) m ≤
      schedule.count i) :
    ∃ m', (x.run Marker.next schedule).states[i]? = some m' ∧ m'.result?.isSome := by
  obtain ⟨m', hi', hle⟩ := h.stepsLeft_run hs hroom hi schedule
  rw [Nat.sub_eq_zero_of_le hsteps] at hle
  refine ⟨m', hi', ?_⟩
  rw [Marker.result?_eq]
  exact Marking.result?_of_stepsLeft (Nat.le_zero.mp hle)
    ((h.run hs hroom schedule).counter_lt_of_claiming (List.mem_of_getElem? hi'))

theorem stepsLeft_ofBookmarks (s₀ : Store) (bookmarks : List Bookmark) (b : Bookmark) :
    (ofBookmarks s₀ bookmarks).stepsLeft (s₀.counter Sequence.checkpoints + bookmarks.length)
      (Marker.start b) ≤ 3 * bookmarks.length + 3 := by
  simp only [stepsLeft, Marker.start, Marking.start, Marking.stepsLeft, ofBookmarks,
    Store.counter]
  cases s₀.counters.get? Sequence.checkpoints with
  | none =>
    simp only [Marking.claimSteps, Option.getD_none]
    omega
  | some current =>
    simp only [Marking.claimSteps, Option.getD_some]
    omega

end Interleaving

/-! ### The outcome -/

namespace Store

variable {name : String} {s : Store} {row : Checkpoint}

theorem latestCheckpoint_eq_none_iff :
    s.latestCheckpoint name = none ↔ ∀ row ∈ s.checkpoints, row.pipeline ≠ name := by
  rw [latestCheckpoint_eq, lastGreatest_eq_none_iff, rowsOf, List.filter_eq_nil_iff]
  simp only [beq_iff_eq, ne_eq]

/-- **The latest row of a pipeline** is the one of the greatest order. -/
theorem latestCheckpoint_eq_some_iff (hnodup : (s.checkpoints.map (·.order)).Nodup) :
    s.latestCheckpoint name = some row ↔
      (row ∈ s.checkpoints ∧ row.pipeline = name) ∧
        ∀ other ∈ s.checkpoints, other.pipeline = name → other.order ≤ row.order := by
  have hmem : ∀ other, other ∈ s.rowsOf name ↔ other ∈ s.checkpoints ∧ other.pipeline = name :=
    fun other => by rw [rowsOf, List.mem_filter, beq_iff_eq]
  constructor
  · intro h
    rw [latestCheckpoint_eq] at h
    exact ⟨(hmem row).mp (mem_of_lastGreatest h), fun other hother hname =>
      le_of_lastGreatest h ((hmem other).mpr ⟨hother, hname⟩)⟩
  · rintro ⟨⟨hrow, hname⟩, hgreatest⟩
    cases hlatest : s.latestCheckpoint name with
    | none => exact absurd hname (latestCheckpoint_eq_none_iff.mp hlatest row hrow)
    | some latest =>
      rw [latestCheckpoint_eq] at hlatest
      obtain ⟨hin, hof⟩ := (hmem latest).mp (mem_of_lastGreatest hlatest)
      have hle := le_of_lastGreatest hlatest ((hmem row).mpr ⟨hrow, hname⟩)
      have horder := Nat.le_antisymm (hgreatest latest hin hof) hle
      rw [List.inj_on_of_nodup_map hnodup hin hrow horder]

end Store

namespace Interleaving

/-- **What has come of calls that run beside each other.** -/
structure Noted (s₀ : Store) (bookmarks : List Bookmark) (x : Interleaving Marker) : Prop where
  /-- Each call has its bookmark. -/
  bookmarks_eq : x.states.map (·.bookmark) = bookmarks
  /-- No call fails. -/
  no_failure : ∀ m ∈ x.states, ∀ e, m.result? ≠ some (.error e)
  /-- A call has left a row if it has returned, and not before. -/
  row_iff : ∀ m ∈ x.states, m.row?.isSome ↔ m.result?.isSome
  /-- The row says what was to be noted. -/
  row_eq : ∀ m ∈ x.states, ∀ row, m.row? = some row → row = m.bookmark.row row.order
  /-- The rows are the old ones, and one for each call that has left one. -/
  rows_perm : x.store.checkpoints.Perm (s₀.checkpoints ++ x.states.filterMap Marker.row?)
  /-- No two rows have the same order. -/
  orders_nodup : (x.store.checkpoints.map (·.order)).Nodup
  /-- A pipeline that asks is told the event of its latest row. -/
  told : ∀ name, Progress.runAlone (Request.lastMarked name).next 2 (Request.lastMarked name).start
    x.store = some (.ok (.event ((x.store.latestCheckpoint name).map (·.event))), [], x.store)
  /-- Its latest row is the one of the greatest order. -/
  latest_iff : ∀ name row, x.store.latestCheckpoint name = some row ↔
    (row ∈ x.store.checkpoints ∧ row.pipeline = name) ∧
      ∀ other ∈ x.store.checkpoints, other.pipeline = name → other.order ≤ row.order
  /-- It has none if none of the rows is of the pipeline. -/
  none_iff : ∀ name, x.store.latestCheckpoint name = none ↔
    ∀ row ∈ x.store.checkpoints, row.pipeline ≠ name

variable {s₀ : Store} {bookmarks : List Bookmark} {x : Interleaving Marker}

theorem Orderly.noted (h : x.Orderly s₀ bookmarks) (hs : s₀.RowsCounted)
    (hnodup : (s₀.checkpoints.map (·.order)).Nodup) : x.Noted s₀ bookmarks where
  bookmarks_eq := h.bookmarks_eq
  no_failure m hm := (h.sound m hm).ne_error
  row_iff m hm := (h.sound m hm).row?_isSome_iff
  row_eq _ _ _ hrow := (Marker.order_eq_of_row? hrow).2
  rows_perm := h.rows_perm
  orders_nodup := h.rows_nodup hs hnodup
  told _ := rfl
  latest_iff _ _ := Store.latestCheckpoint_eq_some_iff (h.rows_nodup hs hnodup)
  none_iff _ := Store.latestCheckpoint_eq_none_iff

/-- **Calls that note progress beside each other**, in any order of their steps, in a store whose
rows were placed by the same counter. None of them fails, and each leaves one row; a call that had
three steps for each call, and three more, has returned. If a call returned before another of the
same pipeline began, then its row is not the latest any more once the other has returned. -/
theorem noted_beside (hs : s₀.RowsCounted) (hnodup : (s₀.checkpoints.map (·.order)).Nodup)
    (hroom : s₀.counter Sequence.checkpoints + bookmarks.length ≤ Text.maxWord)
    (schedule : List Nat) :
    ((ofBookmarks s₀ bookmarks).run Marker.next schedule).Noted s₀ bookmarks ∧
    (∀ i < bookmarks.length, 3 * bookmarks.length + 3 ≤ schedule.count i →
      ∃ m, ((ofBookmarks s₀ bookmarks).run Marker.next schedule).states[i]? = some m ∧
        m.result? = some (.ok ())) ∧
    ∀ before between after, schedule = before ++ between ++ after →
      ∀ (i j : Nat) (m m' : Marker),
      ((ofBookmarks s₀ bookmarks).run Marker.next before).states[i]? = some m →
      m.result?.isSome → j ∉ before →
      ((ofBookmarks s₀ bookmarks).run Marker.next (before ++ between)).states[j]? = some m' →
      m'.result?.isSome → m'.bookmark.pipeline = m.bookmark.pipeline →
      ((ofBookmarks s₀ bookmarks).run Marker.next schedule).store.latestCheckpoint
        m.bookmark.pipeline ≠ m.row? := by
  have hstart := orderly_ofBookmarks s₀ bookmarks
  refine ⟨(hstart.run hs hroom schedule).noted hs hnodup, fun i hi hsteps => ?_, ?_⟩
  · obtain ⟨m, hm, hover⟩ := hstart.returns hs hroom (getElem?_ofBookmarks s₀ hi)
      ((stepsLeft_ofBookmarks s₀ bookmarks _).trans hsteps)
    obtain ⟨result, hresult⟩ := Option.isSome_iff_exists.mp hover
    refine ⟨m, hm, ?_⟩
    cases result with
    | ok u => exact hresult
    | error e =>
      have hsound := (hstart.run hs hroom schedule).sound m (List.mem_of_getElem? hm)
      exact absurd hresult (hsound.ne_error e)
  · rintro before between after rfl i j m m' hi hm hj hj' hm' hname
    have hstay := getElem?_run_of_result? hj' hm' after
    rw [← run_append] at hstay
    have hlt : j < bookmarks.length :=
      (hstart.run hs hroom _).length_eq ▸ (List.getElem?_eq_some_iff.mp hstay).1
    have hbegin : ((ofBookmarks s₀ bookmarks).run Marker.next before).states[j]? =
        some (Marker.start bookmarks[j]) :=
      (getElem?_run_of_notMem hj _).trans (getElem?_ofBookmarks s₀ hlt)
    have hrest : ((ofBookmarks s₀ bookmarks).run Marker.next before).run Marker.next
        (between ++ after) = (ofBookmarks s₀ bookmarks).run Marker.next
          (before ++ between ++ after) := by
      rw [← run_append, List.append_assoc]
    exact (hstart.run hs hroom before).displaced hs hroom hi hm ⟨_, hbegin, rfl⟩ hrest hstay hm'
      hname

/-- Two calls of two pipelines meet at the counter that neither has found, and at the order that
both claim; the first to claim stores last. A third call begins when the first has returned, for
its pipeline, and notes an event that was noted before. -/
theorem noted_beside_three :
    let bookmarks : List Bookmark :=
      [⟨"a", .ofNat 1, .epoch⟩, ⟨"b", .ofNat 2, .epoch⟩, ⟨"a", .ofNat 1, .epoch⟩]
    let before := [0, 1, 0, 1, 0, 1, 0, 1, 1, 1, 1, 1, 1, 0, 0]
    let between := [2, 2, 2, 2]
    let x := (ofBookmarks .empty bookmarks).run Marker.next (before ++ between)
    (Store.empty.RowsCounted ∧ (Store.empty.checkpoints.map (·.order)).Nodup ∧
      Store.empty.counter Sequence.checkpoints + bookmarks.length ≤ Text.maxWord) ∧
    x.Noted .empty bookmarks ∧
    x.store.checkpoints = [⟨"b", .ofNat 2, 2, .epoch⟩, ⟨"a", .ofNat 1, 1, .epoch⟩,
      ⟨"a", .ofNat 1, 3, .epoch⟩] ∧
    x.store.latestCheckpoint "a" ≠ some ⟨"a", .ofNat 1, 1, .epoch⟩ := by
  intro bookmarks before between x
  have hrows : Store.empty.RowsCounted := nofun
  have hnodup : (Store.empty.checkpoints.map (·.order)).Nodup := List.nodup_nil
  have hroom : Store.empty.counter Sequence.checkpoints + bookmarks.length ≤ Text.maxWord := by
    decide
  obtain ⟨hnoted, -, hfresh⟩ := noted_beside hrows hnodup hroom (before ++ between)
  refine ⟨⟨hrows, hnodup, hroom⟩, hnoted, by decide, ?_⟩
  -- what the first call and the third have left when they have returned
  have hrow : ((ofBookmarks .empty bookmarks).run Marker.next before).states[0]?.bind
      Marker.row? = some ⟨"a", .ofNat 1, 1, .epoch⟩ := by decide
  have hrow' : x.states[2]?.bind Marker.row? = some ⟨"a", .ofNat 1, 3, .epoch⟩ := by decide
  obtain ⟨m, hi, hm⟩ := Option.bind_eq_some_iff.mp hrow
  obtain ⟨m', hj, hm'⟩ := Option.bind_eq_some_iff.mp hrow'
  have hname : m.bookmark.pipeline = "a" :=
    (congrArg Checkpoint.pipeline (Marker.order_eq_of_row? hm).2).symm
  have hname' : m'.bookmark.pipeline = "a" :=
    (congrArg Checkpoint.pipeline (Marker.order_eq_of_row? hm').2).symm
  have hreturned := ((noted_beside hrows hnodup hroom before).1.row_iff m
    (List.mem_of_getElem? hi)).mp (Option.isSome_of_eq_some hm)
  have hreturned' := (hnoted.row_iff m' (List.mem_of_getElem? hj)).mp
    (Option.isSome_of_eq_some hm')
  have h := hfresh before between [] (List.append_nil _).symm 0 2 m m' hi hreturned (by decide)
    hj hreturned' (hname'.trans hname.symm)
  rwa [hname, hm] at h

end Interleaving

end EventJournal
