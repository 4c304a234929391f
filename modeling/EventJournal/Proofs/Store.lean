import EventJournal.Log.Sequence
import EventJournal.Proofs.EventTable
import Mathlib.Data.List.Induction

/-!
# Stores in which the positions run without a gap

The positions of the stored events are handed out by the counter `EventJournal.Sequence.events`.
A store is *ordered* (`EventJournal.Store.Ordered`) if its table of events is coherent and the
positions are exactly those from one to the counter.

What can come of a commit of any events is said once, case by case, in
`EventJournal.Store.Commits`. A batch is put to the store at the positions that follow some value
of the counter, which leaves three of the cases (`EventJournal.Store.commitEvents_cases`): the
counter has another value and nothing happens; or the batch goes in as a whole and the counter
moves to its last position (`EventJournal.Store.Gains`); or an event of it clashes with another
and nothing that a read could find is left of the attempt (`EventJournal.Store.Agrees`). A batch
whose place in its stream is free clashes by its identifiers alone
(`EventJournal.Store.commitEvents_ok_iff`).

All other calls leave the events alone (`EventJournal.Call.LeavesEvents`).
-/

namespace EventJournal

/-! ### The last of the greatest -/

section LastGreatest

variable {α : Type} {key : α → Nat} {xs : List α} {x : α}

theorem lastGreatest_concat (key : α → Nat) (xs : List α) (x : α) :
    lastGreatest key (xs ++ [x]) =
      match lastGreatest key xs with
      | some b => if key b ≤ key x then some x else some b
      | none => some x := by
  rw [lastGreatest, List.foldl_append]
  rfl

theorem lastGreatest_eq_none_iff : lastGreatest key xs = none ↔ xs = [] := by
  induction xs using List.reverseRecOn with
  | nil => exact iff_of_true rfl rfl
  | append_singleton xs x ih =>
    rw [lastGreatest_concat]
    refine iff_of_false ?_ (List.append_ne_nil_of_right_ne_nil _ (List.cons_ne_nil x []))
    split
    · split <;> exact Option.some_ne_none _
    · exact Option.some_ne_none x

/-- What is chosen is at least as great as what comes before it, and greater than what comes
after. -/
theorem split_of_lastGreatest (h : lastGreatest key xs = some x) :
    ∃ before after, xs = before ++ x :: after ∧
      (∀ y ∈ before, key y ≤ key x) ∧ ∀ y ∈ after, key y < key x := by
  induction xs using List.reverseRecOn generalizing x with
  | nil => cases h
  | append_singleton xs z ih =>
    rw [lastGreatest_concat] at h
    cases hbest : lastGreatest key xs with
    | none =>
      rw [hbest] at h
      obtain rfl := Option.some.inj h
      obtain rfl := lastGreatest_eq_none_iff.mp hbest
      exact ⟨[], [], rfl, nofun, nofun⟩
    | some b =>
      obtain ⟨before, after, rfl, hbefore, hafter⟩ := ih hbest
      rw [hbest] at h
      dsimp only at h
      split at h
      · next hle =>
        obtain rfl := Option.some.inj h
        refine ⟨before ++ b :: after, [], rfl, fun y hy => ?_, nofun⟩
        rcases List.mem_append.mp hy with hy | hy
        · exact (hbefore y hy).trans hle
        · rcases List.mem_cons.mp hy with rfl | hy
          · exact hle
          · exact (hafter y hy).le.trans hle
      · next hlt =>
        obtain rfl := Option.some.inj h
        refine ⟨before, after ++ [z], by simp, hbefore, fun y hy => ?_⟩
        rcases List.mem_append.mp hy with hy | hy
        · exact hafter y hy
        · obtain rfl := List.mem_singleton.mp hy
          exact Nat.lt_of_not_le hlt

theorem mem_of_lastGreatest (h : lastGreatest key xs = some x) : x ∈ xs := by
  obtain ⟨before, after, rfl, -, -⟩ := split_of_lastGreatest h
  exact List.mem_append_right _ List.mem_cons_self

/-- What is chosen is one of the greatest. -/
theorem le_of_lastGreatest (h : lastGreatest key xs = some x) {y : α} (hy : y ∈ xs) :
    key y ≤ key x := by
  obtain ⟨before, after, rfl, hbefore, hafter⟩ := split_of_lastGreatest h
  rcases List.mem_append.mp hy with hy | hy
  · exact hbefore y hy
  · rcases List.mem_cons.mp hy with rfl | hy
    · exact le_rfl
    · exact (hafter y hy).le

/-- An element that is at least as great as all before it is chosen. -/
theorem lastGreatest_append_singleton (h : ∀ y ∈ xs, key y ≤ key x) :
    lastGreatest key (xs ++ [x]) = some x := by
  rw [lastGreatest_concat]
  cases hbest : lastGreatest key xs with
  | none => rfl
  | some b => exact if_pos (h b (mem_of_lastGreatest hbest))

/-- **The element that is chosen** is the last of the greatest. -/
theorem lastGreatest_eq_some_iff :
    lastGreatest key xs = some x ↔ ∃ before after, xs = before ++ x :: after ∧
      (∀ y ∈ before, key y ≤ key x) ∧ ∀ y ∈ after, key y < key x := by
  refine ⟨split_of_lastGreatest, ?_⟩
  rintro ⟨before, after, rfl, hbefore, hafter⟩
  induction after using List.reverseRecOn with
  | nil => exact lastGreatest_append_singleton hbefore
  | append_singleton after z ih =>
    rw [List.forall_mem_append] at hafter
    rw [← List.cons_append, ← List.append_assoc, lastGreatest_concat, ih hafter.1]
    exact if_neg (Nat.not_le_of_lt (hafter.2 z List.mem_cons_self))

/-- The element that is chosen from those that satisfy a condition. -/
theorem lastGreatest_filter_eq_some_iff {p : α → Bool} :
    lastGreatest key (xs.filter p) = some x ↔ ∃ before after, xs = before ++ x :: after ∧
      p x = true ∧ (∀ y ∈ before, p y = true → key y ≤ key x) ∧
      ∀ y ∈ after, p y = true → key y < key x := by
  rw [lastGreatest_eq_some_iff]
  constructor
  · rintro ⟨before', after', hfilter, hbefore, hafter⟩
    obtain ⟨before, rest, rfl, rfl, hrest⟩ := List.filter_eq_append_iff.mp hfilter
    obtain ⟨skipped, after, rfl, hskipped, hx, rfl⟩ := List.filter_eq_cons_iff.mp hrest
    refine ⟨before ++ skipped, after, by rw [List.append_assoc], hx, fun y hy hp => ?_,
      fun y hy hp => hafter y (List.mem_filter.mpr ⟨hy, hp⟩)⟩
    rcases List.mem_append.mp hy with hy | hy
    · exact hbefore y (List.mem_filter.mpr ⟨hy, hp⟩)
    · exact absurd hp (hskipped y hy)
  · rintro ⟨before, after, rfl, hx, hbefore, hafter⟩
    refine ⟨before.filter p, after.filter p, ?_, fun y hy => ?_, fun y hy => ?_⟩
    · rw [List.filter_append, List.filter_cons_of_pos hx]
    · exact hbefore y (List.mem_filter.mp hy).1 (List.mem_filter.mp hy).2
    · exact hafter y (List.mem_filter.mp hy).1 (List.mem_filter.mp hy).2

end LastGreatest

namespace Draft

/-! ### The events of a batch -/

theorem placeAll_eq_mapIdx (stream : Uuid) (index position : Nat) (ds : List Draft) :
    placeAll stream index position ds =
      ds.mapIdx fun k d => d.place stream (index + k) (position + k) := by
  induction ds generalizing index position with
  | nil => rfl
  | cons d rest ih =>
    rw [placeAll, ih, List.mapIdx_cons]
    refine congrArg (List.cons _) (congrFun (congrArg _ (funext fun k => funext fun d => ?_)) _)
    simp only [Nat.add_assoc, Nat.add_comm 1]

theorem mem_placeAll_iff {stream : Uuid} {index position : Nat} {ds : List Draft} {e : Event} :
    e ∈ placeAll stream index position ds ↔
      ∃ k, ∃ h : k < ds.length, ds[k].place stream (index + k) (position + k) = e := by
  rw [placeAll_eq_mapIdx, List.mem_mapIdx]

/-- The first event of a batch has the position of the batch. -/
theorem exists_placeAll_eq_cons (stream : Uuid) (index position : Nat) {ds : List Draft}
    (h : ds ≠ []) :
    ∃ e rest, placeAll stream index position ds = e :: rest ∧ e.position = position := by
  cases ds with
  | nil => exact absurd rfl h
  | cons d rest => exact ⟨_, _, rfl, rfl⟩

theorem getLast?_placeAll (stream : Uuid) (index position : Nat) {ds : List Draft}
    (h : ds ≠ []) :
    ∃ e, (placeAll stream index position ds).getLast? = some e ∧
      e.position + 1 = position + ds.length := by
  have hlen := List.length_pos_of_ne_nil h
  rw [placeAll_eq_mapIdx, List.getLast?_eq_getElem?, List.length_mapIdx, List.getElem?_mapIdx,
    List.getElem?_eq_getElem (by omega)]
  exact ⟨_, rfl, by simp only [place]; omega⟩

/-- **Events of one batch clash by their identifiers alone.** -/
theorem pairwise_placeAll_iff {stream : Uuid} {index position : Nat} {ds : List Draft} :
    (placeAll stream index position ds).Pairwise (fun a b => ¬a.Clash b) ↔
      (ds.map (·.id)).Nodup := by
  induction ds generalizing index position with
  | nil => simp [placeAll]
  | cons d rest ih =>
    rw [placeAll, List.pairwise_cons, ih, List.map_cons, List.nodup_cons]
    refine and_congr_left fun _ => ?_
    rw [List.mem_map]
    constructor
    · rintro hfree ⟨x, hx, hid⟩
      obtain ⟨k, hk, rfl⟩ := List.mem_iff_getElem.mp hx
      exact hfree _ (mem_placeAll_iff.mpr ⟨k, hk, rfl⟩) (Or.inr (Or.inl hid.symm))
    · rintro hid e he hclash
      obtain ⟨k, hk, rfl⟩ := mem_placeAll_iff.mp he
      rcases hclash with h | h | ⟨-, h⟩
      · simp only [place] at h
        omega
      · exact hid ⟨_, List.getElem_mem hk, h.symm⟩
      · simp only [place] at h
        omega

end Draft

namespace Store

/-! ### Ordered stores -/

/-- **The positions run from one to the counter**, and the indexes describe the events. -/
structure Ordered (s : Store) : Prop where
  /-- The indexes describe the events. -/
  coherent : s.events.Coherent
  /-- The positions that are taken. -/
  position_iff : ∀ p, (∃ e ∈ s.events.toList, e.position = p) ↔
    0 < p ∧ p ≤ s.counter Sequence.events

theorem ordered_empty : empty.Ordered where
  coherent := EventTable.coherent_empty
  position_iff p := by
    constructor
    · rintro ⟨e, he, -⟩
      exact nomatch he
    · rintro ⟨hpos, hle⟩
      exact absurd hpos (Nat.not_lt.mpr hle)

theorem Ordered.position_pos {s : Store} (h : s.Ordered) {e : Event}
    (he : e ∈ s.events.toList) : 0 < e.position :=
  ((h.position_iff e.position).mp ⟨e, he, rfl⟩).1

theorem Ordered.position_le {s : Store} (h : s.Ordered) {e : Event}
    (he : e ∈ s.events.toList) : e.position ≤ s.counter Sequence.events :=
  ((h.position_iff e.position).mp ⟨e, he, rfl⟩).2

/-- **Two stores that no read of the log can tell apart**: they have the same tables, except
that an index of the events may hold nothing where another has none. -/
structure Agrees (s s' : Store) : Prop where
  /-- The events. -/
  events : s.events.Agrees s'.events
  /-- The heads. -/
  heads : s.heads = s'.heads
  /-- The snapshots. -/
  snapshots : s.snapshots = s'.snapshots
  /-- The counters. -/
  counters : s.counters = s'.counters
  /-- The checkpoints. -/
  checkpoints : s.checkpoints = s'.checkpoints

theorem Agrees.refl (s : Store) : s.Agrees s := ⟨EventTable.Agrees.refl _, rfl, rfl, rfl, rfl⟩

theorem Agrees.counter_eq {s s' : Store} (h : s.Agrees s') (name : String) :
    s.counter name = s'.counter name := by
  rw [counter, counter, h.counters]

theorem Agrees.ordered {s s' : Store} (h : s.Agrees s') (hs' : s'.Ordered) : s.Ordered where
  coherent := h.events.coherent hs'.coherent
  position_iff p := by
    rw [h.events.toList, h.counter_eq]
    exact hs'.position_iff p

/-- **A store that has gained a batch**, and has moved its counter on accordingly. -/
structure Gains (s : Store) (batch : List Event) (s' : Store) : Prop where
  /-- The store is still ordered. -/
  ordered : s'.Ordered
  /-- The events. -/
  mem_iff : ∀ e, e ∈ s'.events.toList ↔ e ∈ s.events.toList ∨ e ∈ batch
  /-- The counter of positions. -/
  counter_eq : s'.counter Sequence.events = s.counter Sequence.events + batch.length
  /-- The other counters. -/
  counters_of_ne : ∀ name, name ≠ Sequence.events →
    s'.counters.get? name = s.counters.get? name
  /-- The heads. -/
  heads : s'.heads = s.heads
  /-- The snapshots. -/
  snapshots : s'.snapshots = s.snapshots
  /-- The checkpoints. -/
  checkpoints : s'.checkpoints = s.checkpoints

/-! ### Commits -/

/-- **What comes of a commit**: the answer, and the store after it. -/
inductive Commits (s : Store) (sequence : String) :
    List Event → Except StoreError Bool → Store → Prop
  /-- There is nothing to store. -/
  | nothing : Commits s sequence [] (.ok true) s
  /-- The first event has no position. -/
  | unplaced {first rest} (hzero : first.position = 0) :
    Commits s sequence (first :: rest) (.error (.outOfRange "global_seq" 0)) s
  /-- The counter has another value. -/
  | elsewhere {first rest} (hpos : 0 < first.position)
    (hcounter : s.counter sequence ≠ first.position - 1) :
    Commits s sequence (first :: rest) (.ok false) s
  /-- An event could not be inserted. -/
  | undone {first rest err table} (hpos : 0 < first.position)
    (hcounter : s.counter sequence = first.position - 1)
    (hinsert : s.events.insertAll (first :: rest) = (some err, table)) :
    Commits s sequence (first :: rest) (.error err) { s with events := table }
  /-- The events are stored, and the counter moves to the last of them. -/
  | stored {first rest last table} (hpos : 0 < first.position)
    (hcounter : s.counter sequence = first.position - 1)
    (hlast : (first :: rest).getLast? = some last)
    (hinsert : s.events.insertAll (first :: rest) = (none, table)) :
    Commits s sequence (first :: rest) (.ok true)
      { s with events := table, counters := s.counters.insert sequence last.position }

/-- **Nothing else can come of it.** -/
theorem commits_of_eq {s s' : Store} {sequence : String} {events : List Event}
    {r : Except StoreError Bool} (h : s.commitEvents sequence events = (r, s')) :
    s.Commits sequence events r s' := by
  cases events with
  | nil =>
    obtain ⟨rfl, rfl⟩ := Prod.mk.inj h
    exact .nothing
  | cons first rest =>
    have hlast := List.getLast?_eq_some_getLast (List.cons_ne_nil first rest)
    simp only [commitEvents, List.head?_cons, hlast] at h
    split at h
    · next hzero =>
      obtain ⟨rfl, rfl⟩ := Prod.mk.inj h
      exact .unplaced hzero
    · next hzero =>
      have hpos : 0 < first.position := Nat.pos_of_ne_zero hzero
      split at h
      · next hcounter =>
        obtain ⟨rfl, rfl⟩ := Prod.mk.inj h
        exact .elsewhere hpos hcounter
      · next hcounter =>
        have hcounter := not_not.mp hcounter
        split at h
        · next table hinsert =>
          obtain ⟨rfl, rfl⟩ := Prod.mk.inj h
          exact .stored hpos hcounter hlast hinsert
        · next err table hinsert =>
          obtain ⟨rfl, rfl⟩ := Prod.mk.inj h
          exact .undone hpos hcounter hinsert

theorem commits (s : Store) (sequence : String) (events : List Event) :
    s.Commits sequence events (s.commitEvents sequence events).1
      (s.commitEvents sequence events).2 := commits_of_eq rfl

/-- **A commit that is not made** leaves nothing that a read could find. -/
theorem Commits.agrees {s s' : Store} {sequence : String} {events : List Event}
    {r : Except StoreError Bool} (h : s.Commits sequence events r s') (hr : r ≠ .ok true) :
    s'.Agrees s := by
  cases h with
  | nothing | stored => exact absurd rfl hr
  | unplaced | elsewhere => exact .refl s
  | undone _ _ hinsert =>
    have hagrees := EventTable.insertAll_agrees (congrArg Prod.fst hinsert)
    rw [hinsert] at hagrees
    exact ⟨hagrees, rfl, rfl, rfl, rfl⟩

/-- **What is answered to a commit.** -/
theorem commitEvents_fst (s : Store) (sequence : String) (first : Event) (rest : List Event) :
    (s.commitEvents sequence (first :: rest)).1 =
      if first.position = 0 then .error (.outOfRange "global_seq" 0)
      else if s.counter sequence ≠ first.position - 1 then .ok false
      else (s.events.insertAll (first :: rest)).1.elim (.ok true) .error := by
  rcases heq : s.commitEvents sequence (first :: rest) with ⟨r, s'⟩
  cases commits_of_eq heq with
  | unplaced hzero => rw [if_pos hzero]
  | elsewhere hpos hcounter => rw [if_neg (Nat.ne_zero_of_lt hpos), if_pos hcounter]
  | undone hpos hcounter hinsert | stored hpos hcounter _ hinsert =>
    rw [if_neg (Nat.ne_zero_of_lt hpos), if_neg (not_not.mpr hcounter), hinsert]
    rfl

/-! ### Committing a batch -/

section Commit

variable {s : Store} {stream : Uuid} {index first : Nat} {ds : List Draft}

/-- A batch that follows the counter's value and was inserted. -/
theorem gains_of_insertAll (h : s.Ordered)
    (hfirst : s.counter Sequence.events + 1 = first)
    (hnone : (s.events.insertAll (Draft.placeAll stream index first ds)).1 = none) :
    s.Gains (Draft.placeAll stream index first ds)
      { s with
        events := (s.events.insertAll (Draft.placeAll stream index first ds)).2
        counters := s.counters.insert Sequence.events
          (s.counter Sequence.events + ds.length) } := by
  obtain ⟨hcoh, hmem⟩ := EventTable.insertAll_of_none h.coherent hnone
  refine ⟨⟨hcoh, fun p => ?_⟩, hmem, ?_, fun name hne => ?_, rfl, rfl, rfl⟩
  · have hcounter := h.position_iff p
    simp only [counter, SortedMap.get?_insert_self, Option.getD_some, hmem, or_and_right,
      exists_or, Draft.mem_placeAll_iff] at hcounter ⊢
    rw [hcounter]
    simp only [counter] at hfirst
    -- a position is an old one up to the counter, and one of the batch beyond it
    constructor
    · rintro (hle | ⟨e, ⟨k, hk, rfl⟩, rfl⟩)
      · omega
      · simp only [Draft.place]
        omega
    · intro hp
      by_cases hle : p < first
      · left
        omega
      · right
        refine ⟨_, ⟨p - first, by omega, rfl⟩, ?_⟩
        simp only [Draft.place]
        omega
  · rw [Draft.length_placeAll]
    simp [counter]
  · exact SortedMap.get?_insert_of_ne _ hne _

variable (stream index) in
/-- **What comes of putting a batch to an ordered store.** -/
theorem commitEvents_cases (h : s.Ordered) (hds : ds ≠ []) (hpos : 0 < first) :
    let batch := Draft.placeAll stream index first ds
    (s.counter Sequence.events + 1 ≠ first ∧
      s.commitEvents Sequence.events batch = (.ok false, s)) ∨
    (s.counter Sequence.events + 1 = first ∧
      ∃ s', s.commitEvents Sequence.events batch = (.ok true, s') ∧ s.Gains batch s') ∨
    (s.counter Sequence.events + 1 = first ∧
      ∃ err s', s.commitEvents Sequence.events batch = (.error err, s') ∧ s'.Agrees s) := by
  intro batch
  obtain ⟨e, rest, hbatch, hepos⟩ := Draft.exists_placeAll_eq_cons stream index first hds
  rcases heq : s.commitEvents Sequence.events batch with ⟨r, s'⟩
  have hcommits := commits_of_eq heq
  have hagrees := hcommits.agrees
  simp only [batch, hbatch] at hcommits
  cases hcommits with
  | unplaced hzero => omega
  | elsewhere _ hcounter => exact Or.inl ⟨by omega, rfl⟩
  | undone _ hcounter => exact Or.inr (Or.inr ⟨by omega, _, _, rfl, hagrees (by simp)⟩)
  | stored _ hcounter hlast hinsert =>
    have hfirst : s.counter Sequence.events + 1 = first := by omega
    obtain ⟨l, hl, hlpos⟩ := Draft.getLast?_placeAll stream index first hds
    rw [hbatch, hlast, Option.some.injEq] at hl
    rw [← hbatch] at hinsert
    have hgains := gains_of_insertAll h hfirst (congrArg Prod.fst hinsert)
    have hposition : s.counter Sequence.events + ds.length = l.position := by omega
    rw [hinsert, hposition, ← hl] at hgains
    exact Or.inr (Or.inl ⟨hfirst, _, rfl, hgains⟩)

/-- **A batch whose place in its stream is free** goes in unless an identifier of it is
taken or occurs twice. -/
theorem commitEvents_ok_iff (h : s.Ordered) (hds : ds ≠ [])
    (hfirst : s.counter Sequence.events + 1 = first)
    (hplace : ∀ e ∈ s.events.toList, e.stream = stream → e.index < index ∨
      index + ds.length ≤ e.index) :
    (s.commitEvents Sequence.events (Draft.placeAll stream index first ds)).1 = .ok true ↔
      (ds.map (·.id)).Nodup ∧ ∀ e ∈ s.events.toList, e.id ∉ ds.map (·.id) := by
  have hins : (s.events.insertAll (Draft.placeAll stream index first ds)).1 = none ↔ _ :=
    EventTable.insertAll_eq_none_iff h.coherent
  rw [Draft.pairwise_placeAll_iff] at hins
  have hleft : (s.commitEvents Sequence.events (Draft.placeAll stream index first ds)).1 =
      .ok true ↔ (s.events.insertAll (Draft.placeAll stream index first ds)).1 = none := by
    obtain ⟨e, rest, hbatch, hepos⟩ := Draft.exists_placeAll_eq_cons stream index first hds
    rw [hbatch, commitEvents_fst, if_neg (by omega), if_neg (by omega)]
    cases (s.events.insertAll (e :: rest)).1 <;> simp
  rw [hleft, hins, and_comm]
  -- the positions and the places are free, so that only identifiers are left to clash
  refine and_congr_right fun _ => forall_congr' fun e => forall_congr' fun he => ?_
  have hle := h.position_le he
  constructor
  · intro hfree hid
    obtain ⟨d, hd, hid⟩ := List.mem_map.mp hid
    obtain ⟨k, hk, rfl⟩ := List.mem_iff_getElem.mp hd
    exact hfree _ (Draft.mem_placeAll_iff.mpr ⟨k, hk, rfl⟩) (Or.inr (Or.inl hid.symm))
  · intro hid x hx hclash
    obtain ⟨k, hk, rfl⟩ := Draft.mem_placeAll_iff.mp hx
    rcases hclash with hc | hc | ⟨hs, hc⟩
    · simp only [Draft.place] at hc
      omega
    · exact hid (List.mem_map.mpr ⟨_, List.getElem_mem hk, hc.symm⟩)
    · have := hplace e he hs
      simp only [Draft.place] at hc
      omega

end Commit

end Store

/-! ### Calls that leave the events alone -/

namespace Call

/-- **A call that neither stores events nor moves their counter.** -/
def LeavesEvents : Call → Prop
  | commitEvents .. => False
  | insertCounter name _ => name ≠ Sequence.events
  | advanceCounter name _ _ => name ≠ Sequence.events
  | _ => True

/-- A call that stores no events. -/
def keepsLog : Call → Bool
  | commitEvents .. => false
  | _ => true

theorem events_of_keepsLog {call : Call} (h : call.keepsLog = true) (s : Store) :
    (call.perform s).2.events = s.events := by
  cases call with
  | commitEvents sequence events => exact nomatch h
  | insertHead head =>
    simp only [perform, Store.insertHead]
    split <;> rfl
  | advanceHead stream expected version =>
    simp only [perform, Store.advanceHead]
    split
    · split <;> rfl
    · rfl
  | insertCounter name value =>
    simp only [perform, Store.insertCounter]
    split <;> rfl
  | advanceCounter name expected value =>
    simp only [perform, Store.advanceCounter]
    split <;> rfl
  | insertCheckpoint row =>
    simp only [perform, Store.insertCheckpoint]
    split <;> rfl
  | _ => rfl

theorem LeavesEvents.keepsLog {call : Call} (h : call.LeavesEvents) : call.keepsLog = true := by
  cases call with
  | commitEvents sequence events => exact absurd h id
  | _ => rfl

/-- **What a call can do to the table of events**: nothing that a read could find, or insert a
batch. -/
theorem perform_table (call : Call) (s : Store) :
    (call.perform s).2.events.Agrees s.events ∨
      ∃ batch, (s.events.insertAll batch).1 = none ∧
        (call.perform s).2.events = (s.events.insertAll batch).2 := by
  cases hkeeps : call.keepsLog with
  | true =>
    left
    rw [events_of_keepsLog hkeeps s]
  | false =>
    cases call with
    | commitEvents sequence events =>
      rcases heq : s.commitEvents sequence events with ⟨r, s'⟩
      have hcommits := Store.commits_of_eq heq
      simp only [perform, heq]
      by_cases hr : r = .ok true
      · cases hcommits with
        | nothing => exact Or.inl (.refl _)
        | stored _ _ _ hinsert =>
          refine Or.inr ⟨_, congrArg Prod.fst hinsert, ?_⟩
          rw [hinsert]
        | unplaced | elsewhere | undone => cases hr
      · exact Or.inl (hcommits.agrees hr).events
    | _ => cases hkeeps

/-- **No call makes a table incoherent**, not even a commit that is refused. -/
theorem perform_coherent (call : Call) {s : Store} (hs : s.events.Coherent) :
    (call.perform s).2.events.Coherent := by
  rcases perform_table call s with hagrees | ⟨batch, hnone, heq⟩
  · exact hagrees.coherent hs
  · rw [heq]
    exact (EventTable.insertAll_of_none hs hnone).1

/-- **No call loses an event.** -/
theorem mem_perform (call : Call) {s : Store} (hs : s.events.Coherent) {e : Event}
    (he : e ∈ s.events.toList) : e ∈ (call.perform s).2.events.toList := by
  rcases perform_table call s with hagrees | ⟨batch, hnone, heq⟩
  · rw [hagrees.toList]
    exact he
  · rw [heq, (EventTable.insertAll_of_none hs hnone).2]
    exact Or.inl he

theorem perform_events {call : Call} (h : call.LeavesEvents) (s : Store) :
    (call.perform s).2.events = s.events ∧
      (call.perform s).2.counters.get? Sequence.events = s.counters.get? Sequence.events := by
  refine ⟨events_of_keepsLog h.keepsLog s, ?_⟩
  cases call with
  | commitEvents sequence events => exact absurd h id
  | insertHead head =>
    simp only [perform, Store.insertHead]
    split <;> rfl
  | advanceHead stream expected version =>
    simp only [perform, Store.advanceHead]
    split
    · split <;> rfl
    · rfl
  | insertCounter name value =>
    simp only [perform, Store.insertCounter]
    split
    · rfl
    · exact SortedMap.get?_insert_of_ne _ (Ne.symm h) _
  | advanceCounter name expected value =>
    simp only [perform, Store.advanceCounter]
    split
    · exact SortedMap.get?_insert_of_ne _ (Ne.symm h) _
    · rfl
  | insertCheckpoint row =>
    simp only [perform, Store.insertCheckpoint]
    split <;> rfl
  | _ => rfl

theorem perform_counter {call : Call} (h : call.LeavesEvents) (s : Store) :
    (call.perform s).2.counter Sequence.events = s.counter Sequence.events := by
  rw [Store.counter, Store.counter, (perform_events h s).2]

theorem perform_ordered {call : Call} (h : call.LeavesEvents) {s : Store} (hs : s.Ordered) :
    (call.perform s).2.Ordered := by
  refine ⟨?_, fun p => ?_⟩
  · rw [(perform_events h s).1]
    exact hs.coherent
  · rw [(perform_events h s).1, perform_counter h]
    exact hs.position_iff p

end Call

end EventJournal
