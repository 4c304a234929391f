import EventJournal.Proofs.Appending.Claims
import Mathlib.Algebra.Order.BigOperators.Group.List
import Mathlib.Algebra.Order.Group.Nat

/-!
# Races

Writers race if they append to the same stream and have seen the same version of it. One of
them gets the versions, and the others are told of a conflict. That it is one and not two is
`EventJournal.Interleaving.Accounted.apart`; that it is one and not none, and that it is told
of its success, is shown here, for writers that have done nothing to deserve a failure
(`EventJournal.Interleaving.Race`): their batches are accepted, their events have identifiers
of their own, and the positions are not used up.

The counter needs room for what is claimed and not yet committed. This only grows in the
course of a run (`EventJournal.Interleaving.room_le_step`), so it is asked of the end alone.
-/

namespace EventJournal

/-! ### Room for the positions -/

/-- The number of positions that a writer has still to be given. -/
def Writer.owed (w : Writer) : Nat :=
  match w.append with
  | .committing (.done (.ok _)) => 0
  | .committing _ => w.batch.drafts.length
  | _ => 0

namespace Interleaving

/-- The number of positions that are taken or will be. -/
def room (x : Interleaving Writer) : Nat :=
  x.store.counter Sequence.events + (x.states.map Writer.owed).sum

end Interleaving

namespace Writer

theorem owed_eq (w : Writer) [Decidable w.append.Holds] :
    w.owed = if w.append.Holds ∧ w.append.stored? = none then w.batch.drafts.length else 0 := by
  rcases w with ⟨b, a⟩
  cases a with
  | committing c =>
    have hholds : (Append.committing c).Holds := ⟨c, rfl⟩
    cases c with
    | done result => cases result <;> simp [owed, Append.stored?, hholds]
    | _ => simp [owed, Append.stored?, hholds]
  | _ => simp [owed, Append.Holds]

end Writer

namespace Interleaving

variable {s₀ : Store} {batches : List Batch} {x : Interleaving Writer} {i : Nat} {w : Writer}

/-- **A claim takes room, and a commit uses what was taken.** -/
theorem room_le_step (h : x.Accounted s₀) (hi : x.states[i]? = some w) :
    x.room ≤ room ⟨(w.next.step none w x.store).2,
      x.states.set i (w.next.step none w x.store).1⟩ := by
  classical
  have hsound := h.sound w (List.mem_of_getElem? hi)
  have hstep := Append.step_next h.ordered h.inPlace hsound
  rw [Writer.step_next]
  have hsum := sum_map_set hi
    ⟨w.batch, ((w.append.next w.batch).step none w.append x.store).1⟩ Writer.owed
  unfold room
  cases hstep.effect hsound with
  | nothing hholds hstored hagrees =>
    simp only [Writer.owed_eq, hholds, hstored] at hsum
    simp only [hagrees.counter_eq]
    omega
  | claim head hfree hholds hstored hds hexpected hstream hversion heq =>
    simp only [Writer.owed_eq, hfree, false_and, if_false] at hsum
    simp only [heq]
    change x.store.counter Sequence.events + _ ≤ x.store.counter Sequence.events + _
    omega
  | commit hheld hnone hholds hstored hgains =>
    simp only [Writer.owed_eq, hheld, hnone, hstored, true_and, if_true, and_false,
      reduceCtorEq, if_false] at hsum
    simp only [hgains.counter_eq, Batch.length_placed]
    omega

/-! ### Races -/

/-- **Writers that have done nothing to deserve a failure.** -/
structure Race (s₀ : Store) (batches : List Batch) : Prop where
  /-- The store has been used, if at all, by writers that never saw it fail. -/
  reached : s₀.Reached
  /-- The batches are accepted. -/
  accepted : ∀ b ∈ batches, b.refusal? = none
  /-- Each batch has events. -/
  nonempty : ∀ b ∈ batches, b.drafts ≠ []
  /-- No two events have the same identifier. -/
  ids_nodup : (batches.flatMap Batch.ids).Nodup
  /-- No identifier was used before. -/
  ids_fresh : ∀ e ∈ s₀.events.toList, e.id ∉ batches.flatMap Batch.ids

/-- **What is known in the course of a race.** -/
structure Racing (s₀ : Store) (batches : List Batch) (x : Interleaving Writer) : Prop where
  /-- The claims. -/
  accounted : x.Accounted s₀
  /-- Each writer has its batch. -/
  batches_eq : x.states.map (·.batch) = batches
  /-- A writer that has seen the first version and comes too late, comes after another. -/
  late : ∀ w ∈ x.states,
    w.append = .conflicting ∨
      w.append = .done (.error (.concurrency w.batch.stream w.batch.version)) →
    w.batch.expected = s₀.version w.batch.stream →
    s₀.version w.batch.stream < x.store.version w.batch.stream

theorem racing_ofBatches (h : Race s₀ batches) : Racing s₀ batches (ofBatches s₀ batches) where
  accounted := accounted_ofBatches h.reached.settled.ordered h.reached.settled.inPlace batches
  batches_eq := by
    rw [ofBatches, List.map_map]
    exact List.map_id batches
  late w hw hlate := by
    obtain ⟨b, hb, rfl⟩ := List.mem_map.mp hw
    have hstart : Append.start b = .findingHead := by
      rw [Append.start, h.accepted b hb]
      exact if_neg (by simpa using h.nonempty b hb)
    simp [Writer.start, hstart] at hlate

/-- A writer that comes too late finds the head moved. -/
theorem Racing.late_step (h : Racing s₀ batches x) (hw : w ∈ x.states) {a' : Append}
    {s' : Store} (hstep : Append.Step w.batch w.append x.store a' s')
    (hlate : a' = .conflicting ∨
      a' = .done (.error (.concurrency w.batch.stream w.batch.version)))
    (hexpected : w.batch.expected = s₀.version w.batch.stream) :
    s₀.version w.batch.stream < s'.version w.batch.stream := by
  have hsound := h.accounted.sound w hw
  have hle := h.accounted.version_le w.batch.stream
  have hold := h.late w hw
  rcases w with ⟨b, a⟩
  simp only at hstep hlate hexpected hsound hle hold ⊢
  cases hstep with
  | findsOther hne => omega
  -- another writer has made the head, and has not made it without a version
  | @createsLate _ head hget =>
    have hpos := h.accounted.inPlace.version_pos _ _ hget
    have hexp := hsound.expected_eq rfl
    rw [Store.version_of_get? hget]
    omega
  | movesLate hne =>
    have hpos := hsound.expected_pos rfl
    cases hget : x.store.heads.get? b.stream with
    | none =>
      rw [Store.version_of_get?_none hget] at hle
      omega
    | some head =>
      have := hne head hget
      rw [Store.version_of_get? hget] at hle ⊢
      omega
  | reports => exact hold (Or.inl rfl) hexpected
  | rests => exact hold hlate hexpected
  | _ => simp at hlate

theorem Racing.step (h : Racing s₀ batches x) (hi : x.states[i]? = some w) :
    Racing s₀ batches ⟨(w.next.step none w x.store).2,
      x.states.set i (w.next.step none w x.store).1⟩ := by
  have hmem := List.mem_of_getElem? hi
  have hsound := h.accounted.sound w hmem
  have hstep := Append.step_next h.accounted.ordered h.accounted.inPlace hsound
  have hversion := (hstep.effect hsound).version_le
  refine ⟨h.accounted.step hi, ?_, ?_⟩
  · rw [Writer.step_next]
    refine Eq.trans ?_ h.batches_eq
    exact map_set_of_eq hi rfl
  · rw [Writer.step_next]
    refine forall_mem_set (fun v hv hlate hexpected => ?_) (h.late_step hmem hstep)
    exact lt_of_lt_of_le (h.late v hv hlate hexpected) (hversion _)

theorem Racing.run (h : Racing s₀ batches x) (schedule : List Nat) :
    Racing s₀ batches (x.run Writer.next schedule) :=
  run_induction schedule h fun _ _ _ h hi => h.step hi

/-! ### No failure of the store -/

/-- A batch that is not committed has identifiers that are not in use. -/
theorem Racing.id_unused (h : Racing s₀ batches x) (hrace : Race s₀ batches)
    (hi : x.states[i]? = some w) (hnone : w.append.stored? = none) (e : Event)
    (he : e ∈ x.store.events.toList) : e.id ∉ w.batch.ids := by
  intro hid
  have hbatch : ∀ v ∈ x.states, v.batch ∈ batches := fun v hv =>
    h.batches_eq ▸ List.mem_map_of_mem hv
  rcases (h.accounted.mem_iff e).mp he with he | ⟨v, hv, events, hstored, he⟩
  · exact hrace.ids_fresh e he
      (List.mem_flatMap.mpr ⟨_, hbatch w (List.mem_of_getElem? hi), hid⟩)
  · -- two batches, of which only one is committed, have no identifier in common
    obtain ⟨j, hj⟩ := List.getElem?_of_mem hv
    have hij : i ≠ j := by
      rintro rfl
      obtain rfl := Option.some.inj (hi.symm.trans hj)
      exact nomatch hstored.symm.trans hnone
    have hdisjoint := (List.nodup_flatMap.mp hrace.ids_nodup).2
    rw [← h.batches_eq, List.pairwise_map] at hdisjoint
    refine pairwise_getElem? (fun hd => List.disjoint_comm.mp hd) hdisjoint hij hi hj hid ?_
    obtain ⟨first, rfl⟩ := h.accounted.stored_placed v hv events hstored
    obtain ⟨k, hk, rfl⟩ := Batch.mem_placed_iff.mp he
    exact List.mem_map.mpr ⟨_, List.getElem_mem hk, rfl⟩

/-- **A step does not run into a failure** while there is room. -/
theorem Racing.ne_error_step (h : Racing s₀ batches x) (hrace : Race s₀ batches)
    (hroom : x.room ≤ Text.maxWord) (hi : x.states[i]? = some w)
    (hne : ∀ e, w.append ≠ .committing (.done (.error e))) {a' : Append} {s' : Store}
    (hstep : Append.Step w.batch w.append x.store a' s') (e : StoreError) :
    a' ≠ .committing (.done (.error e)) := by
  have hmem := List.mem_of_getElem? hi
  have hsound := h.accounted.sound w hmem
  have hfree := h.accounted.place_free hrace.reached.settled hi
  have hunused := h.id_unused hrace hi
  have howed : w.owed ≤ (x.states.map Writer.owed).sum :=
    List.single_le_sum (fun _ _ => Nat.zero_le _) _ (List.mem_map_of_mem hmem)
  have hids : (w.batch.drafts.map (·.id)).Nodup := (List.nodup_flatMap.mp hrace.ids_nodup).1 _
    (h.batches_eq ▸ List.mem_map_of_mem hmem)
  rw [room] at hroom
  rcases w with ⟨b, a⟩
  simp only at hstep hsound hne hfree hunused hids
  intro heq
  cases hstep with
  -- the batch itself is owed a position
  | readsLast hlast =>
    have hlen := List.length_pos_of_ne_nil (hsound.nonempty nofun)
    simp only [Writer.owed] at howed
    omega
  -- the places are claimed and the identifiers are new, so there is nothing to clash with
  | clashes hfirst herr hagrees =>
    have hok := (Store.commitEvents_ok_iff h.accounted.ordered (hsound.nonempty nofun) hfirst
      (hfree ⟨_, rfl⟩ rfl)).mpr ⟨hids, hunused rfl⟩
    exact nomatch herr.symm.trans hok
  | rests => exact hne e heq
  | _ => simp [Commit.start] at heq

/-- **No writer is told of a failure of the store** if there is room in the end. -/
theorem Racing.ne_error_run (h : Racing s₀ batches x) (hrace : Race s₀ batches)
    (hne : ∀ w ∈ x.states, ∀ e, w.append ≠ .committing (.done (.error e)))
    (schedule : List Nat) (hroom : (x.run Writer.next schedule).room ≤ Text.maxWord) :
    ∀ w ∈ (x.run Writer.next schedule).states, ∀ e,
      w.append ≠ .committing (.done (.error e)) := by
  have hrun := @run_induction _ _ Writer.next (fun y => Racing s₀ batches y ∧
    (y.room ≤ Text.maxWord → ∀ w ∈ y.states, ∀ e, w.append ≠ .committing (.done (.error e))))
    x schedule ⟨h, fun _ => hne⟩ fun y i w hy hi => ?_
  · exact hrun.2 hroom
  · obtain ⟨hy, hne⟩ := hy
    refine ⟨hy.step hi, fun hroom => ?_⟩
    have hbefore := (room_le_step hy.accounted hi).trans hroom
    have hstep := Append.step_next hy.accounted.ordered hy.accounted.inPlace
      (hy.accounted.sound w (List.mem_of_getElem? hi))
    refine forall_mem_set (hne hbefore) fun e => ?_
    rw [Writer.step_next]
    exact hy.ne_error_step hrace hbefore hi (hne hbefore w (List.mem_of_getElem? hi)) hstep e

/-! ### The outcome -/

end Interleaving

/-- The writer is told that its events are stored. -/
def Writer.Succeeds (w : Writer) : Prop := ∃ events, w.result? = some (.ok events)

namespace Interleaving

/-- **What has come of a race.** -/
structure Decided (s₀ : Store) (batches : List Batch) (x : Interleaving Writer) : Prop where
  /-- Each writer has its batch. -/
  batches_eq : x.states.map (·.batch) = batches
  /-- No two writers have claimed the same version. -/
  apart : x.states.Pairwise Writer.Apart
  /-- All versions from the first to the last were claimed. -/
  tiled : ∀ stream n, (∃ w ∈ x.states, w.Claims stream n) ↔
    s₀.version stream ≤ n ∧ n < x.store.version stream
  /-- No writer is told of a failure of the store. -/
  no_failure : ∀ w ∈ x.states, ∀ e, w.result? ≠ some (.error (.store e))
  /-- Of the writers that have seen the same version one succeeds at most. -/
  at_most_one : ∀ (i j : Nat) (w w' : Writer), x.states[i]? = some w →
    x.states[j]? = some w' → w.batch.stream = w'.batch.stream →
    w.batch.expected = w'.batch.expected → w.Succeeds → w'.Succeeds → i = j
  /-- If all writers of a stream have seen its first version, one of them succeeds. -/
  exactly_one : (∀ w ∈ x.states, w.result?.isSome) → ∀ stream,
    (∃ w ∈ x.states, w.batch.stream = stream) →
    (∀ w ∈ x.states, w.batch.stream = stream → w.batch.expected = s₀.version stream) →
    ∃! i : Nat, ∃ w : Writer, x.states[i]? = some w ∧ w.batch.stream = stream ∧ w.Succeeds
  /-- A writer that succeeds has its batch stored at the versions that it has claimed. -/
  placed : ∀ w ∈ x.states, ∀ events, w.result? = some (.ok events) →
    ∃ first, events = w.batch.placed first
  /-- The new events are those of the writers that succeed. -/
  mem_iff : (∀ w ∈ x.states, w.result?.isSome) → ∀ e, e ∈ x.store.events.toList ↔
    e ∈ s₀.events.toList ∨ ∃ w ∈ x.states, ∃ events, w.result? = some (.ok events) ∧ e ∈ events
  /-- Each stream has events at the indexes below its version, and no others. -/
  contiguous : (∀ w ∈ x.states, w.result?.isSome) → ∀ stream n,
    (∃ e ∈ x.store.events.toList, e.stream = stream ∧ e.index = n) ↔ n < x.store.version stream
  /-- No two events of a stream have the same index. -/
  one_each : ∀ e ∈ x.store.events.toList, ∀ e' ∈ x.store.events.toList,
    e.stream = e'.stream → e.index = e'.index → e = e'

/-- **A writer in a race is told of a conflict or of success.** -/
theorem Racing.result_cases (h : Racing s₀ batches x) (hrace : Race s₀ batches)
    (hne : ∀ w ∈ x.states, ∀ e, w.append ≠ .committing (.done (.error e)))
    (hw : w ∈ x.states) {r : Except LogError (List Event)} (hr : w.result? = some r) :
    (w.append = .done r ∧ r = .error (.concurrency w.batch.stream w.batch.version)) ∨
      ∃ events, w.append.stored? = some events ∧ r = .ok events := by
  have hb : w.batch ∈ batches := h.batches_eq ▸ List.mem_map_of_mem hw
  rw [Writer.result?_eq] at hr
  rcases Append.result?_next_eq_some_iff.mp hr with hdone | ⟨e, herr, -⟩ | hstored
  · refine Or.inl ⟨hdone, ((h.accounted.sound w hw).done_eq r hdone).resolve_left ?_⟩
    rw [Append.start, hrace.accepted _ hb]
    intro hstart
    rw [if_neg (by simpa using hrace.nonempty _ hb)] at hstart
    cases hstart
  · exact absurd herr (hne w hw e)
  · exact Or.inr hstored

theorem Racing.stored_of_result (h : Racing s₀ batches x) (hrace : Race s₀ batches)
    (hne : ∀ w ∈ x.states, ∀ e, w.append ≠ .committing (.done (.error e)))
    (hw : w ∈ x.states) {events : List Event} (hr : w.result? = some (.ok events)) :
    w.append.stored? = some events := by
  rcases h.result_cases hrace hne hw hr with ⟨-, hc⟩ | ⟨events', hev, hc⟩
  · exact nomatch hc
  · cases hc
    exact hev

/-- A writer that has claimed versions and returned has stored its events. -/
theorem Racing.stored_of_holds (h : Racing s₀ batches x) (hrace : Race s₀ batches)
    (hne : ∀ w ∈ x.states, ∀ e, w.append ≠ .committing (.done (.error e)))
    (hw : w ∈ x.states) (hret : w.result?.isSome) (hholds : w.append.Holds) :
    ∃ events, w.append.stored? = some events := by
  obtain ⟨c, hc⟩ := hholds
  obtain ⟨r, hr⟩ := Option.isSome_iff_exists.mp hret
  rcases h.result_cases hrace hne hw hr with ⟨hdone, -⟩ | ⟨events, hev, -⟩
  · exact nomatch hc.symm.trans hdone
  · exact ⟨events, hev⟩

/-- **Two winners of one version are one.** -/
theorem Racing.winner_unique (h : Racing s₀ batches x) (hrace : Race s₀ batches)
    (hne : ∀ w ∈ x.states, ∀ e, w.append ≠ .committing (.done (.error e)))
    (i j : Nat) (w w' : Writer) (hi : x.states[i]? = some w) (hj : x.states[j]? = some w')
    (hst : w.batch.stream = w'.batch.stream) (hexp : w.batch.expected = w'.batch.expected)
    (hs : w.Succeeds) (hs' : w'.Succeeds) : i = j := by
  obtain ⟨events, hr⟩ := hs
  obtain ⟨events', hr'⟩ := hs'
  have hw := List.mem_of_getElem? hi
  have hw' := List.mem_of_getElem? hj
  have hclaims := h.accounted.claims_expected hw
    (.of_stored? (h.stored_of_result hrace hne hw hr))
  rw [hst, hexp] at hclaims
  exact h.accounted.eq_of_claims hi hj hclaims
    (h.accounted.claims_expected hw' (.of_stored? (h.stored_of_result hrace hne hw' hr')))

/-- **There is a winner**, since a writer that has lost has lost to another. -/
theorem Racing.exists_winner (h : Racing s₀ batches x) (hrace : Race s₀ batches)
    (hne : ∀ w ∈ x.states, ∀ e, w.append ≠ .committing (.done (.error e)))
    (hret : ∀ w ∈ x.states, w.result?.isSome) (hw : w ∈ x.states)
    (hexp : w.batch.expected = s₀.version w.batch.stream) :
    ∃ v ∈ x.states, v.batch.stream = w.batch.stream ∧ v.Succeeds := by
  obtain ⟨r, hr⟩ := Option.isSome_iff_exists.mp (hret w hw)
  rcases h.result_cases hrace hne hw hr with ⟨hdone, rfl⟩ | ⟨events, -, rfl⟩
  · -- the first version was claimed by another, who has returned as well
    have hlate := h.late w hw (Or.inr hdone) hexp
    obtain ⟨v, hv, hclaims⟩ := (h.accounted.claimed_iff _ _).mpr ⟨le_rfl, hlate⟩
    obtain ⟨events, hev⟩ := h.stored_of_holds hrace hne hv (hret v hv) hclaims.1
    exact ⟨v, hv, hclaims.2.1, events, v.result?_of_stored? hev⟩
  · exact ⟨w, hw, rfl, events, hr⟩

/-- **A race has one winner, and nothing else goes wrong.** -/
theorem race_decided (hrace : Race s₀ batches) (schedule : List Nat)
    (hroom : ((ofBatches s₀ batches).run Writer.next schedule).room ≤ Text.maxWord) :
    Decided s₀ batches ((ofBatches s₀ batches).run Writer.next schedule) := by
  have hstart := racing_ofBatches hrace
  have hne := hstart.ne_error_run hrace (fun w hw e herr => by
    obtain ⟨b, -, rfl⟩ := List.mem_map.mp hw
    exact Append.not_holds_start b ⟨_, herr⟩) schedule hroom
  have h := hstart.run schedule
  have hacc := h.accounted
  have hunique := h.winner_unique hrace hne
  refine ⟨h.batches_eq, hacc.apart, hacc.claimed_iff, fun w hw e hr => ?_, hunique,
    fun hret stream ⟨w, hw, hst⟩ honly => ?_, fun w hw events hr => ?_, fun hret e => ?_,
    fun hret => ?_, fun e he e' he' hst hidx => ?_⟩
  · rcases h.result_cases hrace hne hw hr with ⟨-, hc⟩ | ⟨events, -, hc⟩
    · exact nomatch hc
    · exact nomatch hc
  · obtain ⟨v, hv, hvst, hvs⟩ := h.exists_winner hrace hne hret hw (by rw [honly w hw hst, hst])
    rw [hst] at hvst
    obtain ⟨i, hi⟩ := List.getElem?_of_mem hv
    refine ⟨i, ⟨v, hi, hvst, hvs⟩, ?_⟩
    rintro j ⟨u, hj, hust, hus⟩
    refine hunique j i u v hj hi (hust.trans hvst.symm) ?_ hus hvs
    rw [honly u (List.mem_of_getElem? hj) hust, honly v hv hvst]
  · exact hacc.stored_placed w hw events (h.stored_of_result hrace hne hw hr)
  · refine (hacc.mem_iff e).trans (or_congr_right (exists_congr fun w =>
      and_congr_right fun hw => exists_congr fun events => and_congr_left fun _ => ?_))
    exact ⟨w.result?_of_stored?, h.stored_of_result hrace hne hw⟩
  · exact (hacc.settled hrace.reached.settled fun w hw =>
      h.stored_of_holds hrace hne hw (hret w hw)).index_iff
  · exact hacc.ordered.coherent.eq_of_clash he he' (Or.inr (Or.inr ⟨hst, hidx⟩))

/-- Two writers race on a stream that has an event, a writer of another stream makes the winner
try twice, and a fourth goes on from the version that the winner has claimed. All of them return:
the first of the two with a conflict, the others with the version and the position of their
event. -/
theorem race_decided_four :
    let s₀ := ((ofBatches .empty [.ofNumbers 1 0 [9]]).run Writer.next [0, 0, 0, 0]).store
    let batches : List Batch :=
      [.ofNumbers 1 1 [10, 11], .ofNumbers 1 1 [12], .ofNumbers 2 0 [13], .ofNumbers 1 2 [14]]
    let schedule := [0, 1, 2, 1, 0, 2, 1, 0, 2, 2, 3, 1, 1, 3, 1, 1, 3, 3, 3]
    let x := (ofBatches s₀ batches).run Writer.next schedule
    Race s₀ batches ∧ x.room ≤ Text.maxWord ∧ Decided s₀ batches x ∧
      x.states.map (fun w => w.result?.map fun r => r.map (·.map fun e => (e.index, e.position))) =
        [some (.error (.concurrency (.ofNat 1) 3)), some (.ok [(1, 3)]), some (.ok [(0, 2)]),
          some (.ok [(2, 4)])] := by
  intro s₀ batches schedule x
  have hreached : s₀.Reached := by
    refine ⟨_, _, rfl, fun w hw => ?_⟩
    obtain rfl := List.mem_singleton.mp hw
    exact ⟨_, rfl, nofun⟩
  have hrace : Race s₀ batches :=
    ⟨hreached, by decide, by decide, by decide, by decide⟩
  have hroom : x.room ≤ Text.maxWord := by decide
  have hresults : x.states.map
      (fun w => w.result?.map fun r => r.map (·.map fun e => (e.index, e.position))) =
        [some (.error (.concurrency (.ofNat 1) 3)), some (.ok [(1, 3)]), some (.ok [(0, 2)]),
          some (.ok [(2, 4)])] := by
    decide +kernel
  exact ⟨hrace, hroom, race_decided hrace schedule hroom, hresults⟩

end Interleaving

end EventJournal
