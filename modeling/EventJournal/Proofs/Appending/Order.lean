import EventJournal.Proofs.Appending.Claims

/-!
# The order within a stream

The events of a stream have an order of their own, by their indexes, and they have an order
among all events, by their positions. A reader of the whole log sees a stream as it is told
only if the two agree and no index is left out (`EventJournal.Store.InOrder`).

A writer gets its indexes when it claims them and its positions when it commits, and nothing
makes the writers of one stream commit in the order of their claims. The two orders therefore
agree just as long as no writer overtakes another
(`EventJournal.Interleaving.inOrder_run_iff`), and it takes no more than two writers for one
to overtake (`EventJournal.Interleaving.overtaking`).
-/

namespace EventJournal

/-! ### One batch more -/

/-- **The order within a stream is the order among all events**, and its indexes run from
zero without a gap. -/
structure Store.InOrder (s : Store) (stream : Uuid) : Prop where
  /-- The indexes that are taken. -/
  contiguous : ∃ k, ∀ n, (∃ e ∈ s.events.toList, e.stream = stream ∧ e.index = n) ↔ n < k
  /-- The two orders. -/
  position_lt : ∀ e ∈ s.events.toList, ∀ e' ∈ s.events.toList, e.stream = stream →
    e'.stream = stream → e.index < e'.index → e.position < e'.position

theorem Store.inOrder_empty (stream : Uuid) : Store.empty.InOrder stream where
  contiguous := by
    refine ⟨0, fun n => ⟨?_, fun hn => absurd hn (Nat.not_lt_zero n)⟩⟩
    rintro ⟨e, he, -⟩
    exact nomatch he
  position_lt e he := nomatch he

theorem Store.inOrder_congr {s s' : Store} (h : s'.events.toList = s.events.toList)
    (stream : Uuid) : s'.InOrder stream ↔ s.InOrder stream := by
  constructor
  · rintro ⟨hcontiguous, hlt⟩
    rw [h] at hcontiguous hlt
    exact ⟨hcontiguous, hlt⟩
  · rintro ⟨hcontiguous, hlt⟩
    rw [← h] at hcontiguous hlt
    exact ⟨hcontiguous, hlt⟩

section Gains

variable {s s' : Store} {b : Batch}

/-- Events of a batch that is put behind the counter come after all others. -/
theorem Store.Ordered.lt_of_mem_placed (hs : s.Ordered) {e e' : Event}
    (he : e ∈ s.events.toList) (he' : e' ∈ b.placed (s.counter Sequence.events + 1)) :
    e.position < e'.position := by
  have hle := hs.position_le he
  obtain ⟨k, hk, rfl⟩ := Batch.mem_placed_iff.mp he'
  simp only [Draft.place]
  omega

/-- A batch for one stream leaves the order of another. -/
theorem Store.Gains.inOrder_of_ne
    (h : s.Gains (b.placed (s.counter Sequence.events + 1)) s') {stream : Uuid}
    (hne : b.stream ≠ stream) : s'.InOrder stream ↔ s.InOrder stream := by
  have hmem : ∀ e, e.stream = stream → (e ∈ s'.events.toList ↔ e ∈ s.events.toList) := by
    rintro e rfl
    refine (h.mem_iff e).trans (or_iff_left fun he => hne ?_)
    exact (Batch.exists_mem_placed_iff.mp ⟨e, he, rfl, rfl⟩).1
  constructor
  · rintro ⟨⟨k, hk⟩, hlt⟩
    refine ⟨⟨k, fun n => ?_⟩, fun e he e' he' hst hst' => ?_⟩
    · rw [← hk]
      exact exists_congr fun e => and_congr_left fun hst => (hmem e hst.1).symm
    · exact hlt e ((hmem e hst).mpr he) e' ((hmem e' hst').mpr he') hst hst'
  · rintro ⟨⟨k, hk⟩, hlt⟩
    refine ⟨⟨k, fun n => ?_⟩, fun e he e' he' hst hst' => ?_⟩
    · rw [← hk]
      exact exists_congr fun e => and_congr_left fun hst => hmem e hst.1
    · exact hlt e ((hmem e hst).mp he) e' ((hmem e' hst').mp he') hst hst'

/-- **A batch keeps the order of its stream if it begins where the stream ends.** -/
theorem Store.Gains.inOrder_iff
    (h : s.Gains (b.placed (s.counter Sequence.events + 1)) s') (hs : s.Ordered)
    (hds : b.drafts ≠ [])
    (hfree : ∀ e ∈ s.events.toList, e.stream = b.stream → e.index < b.expected ∨
      b.version ≤ e.index) :
    s'.InOrder b.stream ↔ s.InOrder b.stream ∧
      ∀ n < b.expected, ∃ e ∈ s.events.toList, e.stream = b.stream ∧ e.index = n := by
  have hlt := Batch.expected_lt_version hds
  -- the indexes that are taken now
  have htaken : ∀ n, (∃ e ∈ s'.events.toList, e.stream = b.stream ∧ e.index = n) ↔
      (∃ e ∈ s.events.toList, e.stream = b.stream ∧ e.index = n) ∨
        b.expected ≤ n ∧ n < b.version := fun n => by
    simp only [h.mem_iff, or_and_right, exists_or, Batch.exists_mem_placed_iff, true_and]
  constructor
  · rintro ⟨⟨k, hk⟩, hposition⟩
    -- an event at a later index would have come before those of the batch
    have hbefore : ∀ e ∈ s.events.toList, e.stream = b.stream → e.index < b.expected := by
      intro e he hst
      refine (hfree e he hst).resolve_right fun hge => ?_
      obtain ⟨e', he', hst', hidx'⟩ := (Batch.exists_mem_placed_iff
        (b := b) (n := b.expected)).mpr ⟨rfl, le_rfl, hlt⟩
      have hpos := hposition e' ((h.mem_iff e').mpr (Or.inr he')) e
        ((h.mem_iff e).mpr (Or.inl he)) hst' hst (by omega)
      exact absurd (hs.lt_of_mem_placed he he') (Nat.not_lt.mpr hpos.le)
    have hkv : b.expected < k := (hk _).mp ((htaken _).mpr (Or.inr ⟨le_rfl, hlt⟩))
    have hall : ∀ n < b.expected, ∃ e ∈ s.events.toList, e.stream = b.stream ∧ e.index = n :=
      fun n hn => ((htaken n).mp ((hk n).mpr (hn.trans hkv))).resolve_right fun hle =>
        absurd hn (Nat.not_lt.mpr hle.1)
    refine ⟨⟨⟨b.expected, fun n => ⟨?_, hall n⟩⟩, fun e he e' he' => ?_⟩, hall⟩
    · rintro ⟨e, he, hst, rfl⟩
      exact hbefore e he hst
    · exact hposition e ((h.mem_iff e).mpr (Or.inl he)) e' ((h.mem_iff e').mpr (Or.inl he'))
  · rintro ⟨⟨⟨k, hk⟩, hposition⟩, hall⟩
    -- the stream ends where the batch begins
    have hk' : k = b.expected := by
      refine Nat.le_antisymm (Nat.not_lt.mp fun hgt => ?_) (Nat.not_lt.mp fun hgt => ?_)
      · obtain ⟨e, he, hst, hidx⟩ := (hk b.expected).mpr hgt
        rcases hfree e he hst with hc | hc <;> omega
      · exact absurd ((hk k).mp (hall k hgt)) (Nat.lt_irrefl k)
    subst hk'
    refine ⟨⟨b.version, fun n => ?_⟩, fun e he e' he' hst hst' hidx => ?_⟩
    · rw [htaken, hk]
      omega
    · rcases (h.mem_iff e).mp he with he | he <;> rcases (h.mem_iff e').mp he' with he' | he'
      · exact hposition e he e' he' hst hst' hidx
      · exact hs.lt_of_mem_placed he he'
      · have hlow := (Batch.exists_mem_placed_iff.mp ⟨e, he, rfl, rfl⟩).2.1
        have := (hk e'.index).mp ⟨e', he', hst', rfl⟩
        omega
      · obtain ⟨i, hi, rfl⟩ := Batch.mem_placed_iff.mp he
        obtain ⟨j, hj, rfl⟩ := Batch.mem_placed_iff.mp he'
        simp only [Draft.place] at hidx ⊢
        omega

end Gains

/-! ### Overtaking -/

namespace Interleaving

/-- **A writer overtakes** if by its next step it commits its batch while an earlier claim of
its stream is not committed. -/
def Overtakes (x : Interleaving Writer) (stream : Uuid) (i : Nat) : Prop :=
  ∃ w, x.states[i]? = some w ∧ w.batch.stream = stream ∧ w.append.stored? = none ∧
    (w.next.step none w x.store).1.append.stored? ≠ none ∧
    ∃ w' ∈ x.states, w'.batch.stream = stream ∧ w'.append.Holds ∧
      w'.append.stored? = none ∧ w'.batch.expected < w.batch.expected

/-- No writer of the stream overtakes another in the course of a schedule. -/
def NoneOvertakes (stream : Uuid) : (schedule : List Nat) → Interleaving Writer → Prop
  | [], _ => True
  | i :: rest, x => ¬x.Overtakes stream i ∧ NoneOvertakes stream rest (x.step Writer.next i)

section Step

variable {x : Interleaving Writer} {i : Nat} {w : Writer}

/-- All indexes below a claim are taken if and only if no earlier claim is waiting. -/
theorem Accounted.forall_lt_expected_iff (h : x.Accounted .empty) (hw : w ∈ x.states)
    (hholds : w.append.Holds) :
    (∀ n < w.batch.expected, ∃ e ∈ x.store.events.toList,
      e.stream = w.batch.stream ∧ e.index = n) ↔
    ¬∃ w' ∈ x.states, w'.batch.stream = w.batch.stream ∧ w'.append.Holds ∧
      w'.append.stored? = none ∧ w'.batch.expected < w.batch.expected := by
  constructor
  · rintro hall ⟨v, hv, hst, hvholds, hnone, hlt⟩
    obtain ⟨e, he, hest, heidx⟩ := hall _ hlt
    rcases (h.mem_iff e).mp he with he | ⟨u, hu, hstored⟩
    · exact nomatch he
    · -- whoever has stored the event at the first index of `v` is `v`
      have huclaims := h.claims_of_hasStored hu hstored
      rw [hest, ← hst, heidx] at huclaims
      obtain ⟨j, hj⟩ := List.getElem?_of_mem hu
      obtain ⟨k, hk⟩ := List.getElem?_of_mem hv
      obtain rfl := h.eq_of_claims hj hk huclaims (h.claims_expected hv hvholds)
      obtain rfl := Option.some.inj (hj.symm.trans hk)
      obtain ⟨events, hev, -⟩ := hstored
      exact nomatch hev.symm.trans hnone
  · intro hnot n hn
    have hbelow := ((h.claimed_iff _ _).mp ⟨w, hw, h.claims_expected hw hholds⟩).2
    obtain ⟨v, hv, hvholds, hst, hlow, hhigh⟩ :=
      (h.claimed_iff w.batch.stream n).mpr ⟨Nat.zero_le n, hn.trans hbelow⟩
    -- the index was claimed by `v`, who has stored it unless it is waiting
    cases hstored : v.append.stored? with
    | none => exact absurd ⟨v, hv, hst, hvholds, hstored, by omega⟩ hnot
    | some events =>
      obtain ⟨first, rfl⟩ := h.stored_placed v hv events hstored
      obtain ⟨e, he, hplace⟩ := Batch.exists_mem_placed_iff.mpr ⟨hst, hlow, hhigh⟩
      exact ⟨e, (h.mem_iff e).mpr (Or.inr ⟨v, hv, _, hstored, he⟩), hplace⟩

/-- **A step keeps the order of a stream if it does not overtake.** -/
theorem Accounted.inOrder_step_iff (h : x.Accounted .empty) (stream : Uuid) :
    (x.step Writer.next i).store.InOrder stream ↔
      x.store.InOrder stream ∧ ¬x.Overtakes stream i := by
  cases hi : x.states[i]? with
  | none =>
    rw [step_eq_self hi]
    refine (and_iff_left ?_).symm
    rintro ⟨w, hw, -⟩
    exact nomatch hw.symm.trans hi
  | some w =>
    have hmem := List.mem_of_getElem? hi
    have hsound := h.sound w hmem
    have hstep := Append.step_next h.ordered h.inPlace hsound
    have hovertakes : x.Overtakes stream i ↔ w.batch.stream = stream ∧
        w.append.stored? = none ∧
        ((w.append.next w.batch).step none w.append x.store).1.stored? ≠ none ∧
        ∃ w' ∈ x.states, w'.batch.stream = stream ∧ w'.append.Holds ∧
          w'.append.stored? = none ∧ w'.batch.expected < w.batch.expected := by
      rw [Overtakes]
      simp only [hi, Option.some.injEq, exists_eq_left', Writer.step_next]
    rw [step_eq_of_getElem? hi (w.step_next x.store), hovertakes]
    cases hstep.effect hsound with
    | nothing hholds hstored hagrees =>
      rw [Store.inOrder_congr hagrees.events.toList, hstored]
      exact (and_iff_left fun hover => hover.2.2.1 hover.2.1).symm
    | claim head hfree hholds hstored hds hexpected hstream hversion heq =>
      have hsame : (x.store.withHead head).events.toList = x.store.events.toList := rfl
      rw [heq, Store.inOrder_congr hsame]
      exact (and_iff_left fun hover => hover.2.2.1 hstored).symm
    | commit hheld hnone hholds hstored hgains =>
      -- no other step can put the stream out of order
      by_cases hst : w.batch.stream = stream
      · subst hst
        have hds : w.batch.drafts ≠ [] := hsound.nonempty fun r hr => by
          obtain ⟨c, hc⟩ := hheld
          exact nomatch hc.symm.trans hr
        rw [hgains.inOrder_iff h.ordered hds (h.place_free Store.settled_empty hi hheld hnone),
          h.forall_lt_expected_iff hmem hheld]
        simp only [hnone, hstored, true_and, ne_eq, reduceCtorEq, not_false_eq_true]
      · rw [hgains.inOrder_of_ne hst]
        exact (and_iff_left fun hover => hst hover.1).symm

end Step

/-- **The events of a stream are in order as long as no writer of the stream overtakes
another**, whichever streams they append to, whatever versions they expect and however they
have come by them. -/
theorem inOrder_run_iff (batches : List Batch) (schedule : List Nat) (stream : Uuid) :
    ((ofBatches .empty batches).run Writer.next schedule).store.InOrder stream ↔
      NoneOvertakes stream schedule (ofBatches .empty batches) := by
  have hstart := accounted_ofBatches Store.ordered_empty Store.headsInPlace_empty batches
  have hinOrder := Store.inOrder_empty stream
  -- by induction on the schedule, over all states that it can be run from
  suffices hrun : ∀ x : Interleaving Writer, x.Accounted .empty →
      ((x.run Writer.next schedule).store.InOrder stream ↔
        x.store.InOrder stream ∧ NoneOvertakes stream schedule x) from
    (hrun _ hstart).trans (and_iff_right hinOrder)
  induction schedule with
  | nil => exact fun x _ => (and_iff_left trivial).symm
  | cons i rest ih =>
    intro x hx
    have hstep : (x.step Writer.next i).Accounted .empty := hx.run [i]
    rw [run_cons, ih _ hstep, hx.inOrder_step_iff, NoneOvertakes, and_assoc]

/-- **Two writers are enough.** The second learns of the version that the first has claimed,
and commits before it. Both are told that they have succeeded, and a reader of the log finds
the second event of the stream before the first. -/
theorem overtaking :
    let x := (ofBatches .empty [.ofNumbers 1 0 [10], .ofNumbers 1 1 [11]]).run Writer.next
      [0, 0, 1, 1, 1, 1, 0, 0]
    (∀ w ∈ x.states, w.append.stored?.isSome) ∧ ¬x.store.InOrder (.ofNat 1) := by
  intro x
  refine ⟨by decide, fun h => ?_⟩
  have hlt := h.position_lt _ (show ((Batch.ofNumbers 1 0 [10]).placed 2)[0] ∈ _ by decide)
    _ (show ((Batch.ofNumbers 1 1 [11]).placed 1)[0] ∈ _ by decide) rfl rfl (by decide)
  exact absurd hlt (by decide)

end Interleaving

end EventJournal
