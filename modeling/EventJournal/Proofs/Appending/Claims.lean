import EventJournal.Proofs.Appending.Writer

/-!
# Writers beside each other

Any number of writers append to one store, their calls coming in any order. They meet at the
heads: a writer gets the versions of its batch only if the head of its stream is still where
it has seen it, so no two writers get the same version of a stream, and none that the head
has passed is left over. What a writer commits later is its batch at these versions and
nothing else. The invariant is `EventJournal.Interleaving.Accounted`; it is relative to the
store `s₀` that the writers have found, and says nothing of how far any of them has come.

When all who have claimed versions have also committed their batches, the store is *settled*
(`EventJournal.Store.Settled`): each stream has an event at every index below its version and
no others. A store that writers have left after such an end is as good as a new one
(`EventJournal.Store.Reached`).
-/

namespace EventJournal

/-! ### Settled stores -/

/-- **A store whose heads count the events**: a stream has an event at every index below its
version, and at no other. -/
structure Store.Settled (s : Store) : Prop where
  /-- The positions. -/
  ordered : s.Ordered
  /-- The heads. -/
  inPlace : s.HeadsInPlace
  /-- The indexes that are taken. -/
  index_iff : ∀ stream n, (∃ e ∈ s.events.toList, e.stream = stream ∧ e.index = n) ↔
    n < s.version stream

theorem Store.settled_empty : Store.empty.Settled where
  ordered := ordered_empty
  inPlace := headsInPlace_empty
  index_iff stream n := by
    constructor
    · rintro ⟨e, he, -⟩
      exact nomatch he
    · intro hn
      exact nomatch hn

namespace Interleaving

/-- Writers that are about to begin. -/
def ofBatches (s : Store) (batches : List Batch) : Interleaving Writer :=
  ⟨s, batches.map Writer.start⟩

/-! ### The invariant -/

/-- **What the writers have made of the store `s₀` that they have found.** -/
structure Accounted (s₀ : Store) (x : Interleaving Writer) : Prop where
  /-- The positions. -/
  ordered : x.store.Ordered
  /-- The heads. -/
  inPlace : x.store.HeadsInPlace
  /-- What is known of each writer. -/
  sound : ∀ w ∈ x.states, w.append.Sound w.batch
  /-- No two writers have claimed the same version. -/
  apart : x.states.Pairwise Writer.Apart
  /-- Versions are not given back. -/
  version_le : ∀ stream, s₀.version stream ≤ x.store.version stream
  /-- The versions that the heads have passed are those that were claimed. -/
  claimed_iff : ∀ stream n, (∃ w ∈ x.states, w.Claims stream n) ↔
    s₀.version stream ≤ n ∧ n < x.store.version stream
  /-- A writer commits its batch. -/
  stored_placed : ∀ w ∈ x.states, ∀ events, w.append.stored? = some events →
    ∃ first, events = w.batch.placed first
  /-- The events that were committed. -/
  mem_iff : ∀ e, e ∈ x.store.events.toList ↔
    e ∈ s₀.events.toList ∨ ∃ w ∈ x.states, w.HasStored e

theorem accounted_ofBatches {s : Store} (hs : s.Ordered) (hh : s.HeadsInPlace)
    (batches : List Batch) : (ofBatches s batches).Accounted s where
  ordered := hs
  inPlace := hh
  sound w hw := by
    obtain ⟨b, -, rfl⟩ := List.mem_map.mp hw
    exact Append.sound_start b
  apart := by
    refine List.pairwise_map.mpr (List.pairwise_of_forall fun b b' stream n hclaims => ?_)
    exact absurd hclaims.1 (Append.not_holds_start b)
  version_le _ := le_rfl
  claimed_iff stream n := by
    constructor
    · rintro ⟨w, hw, hclaims⟩
      obtain ⟨b, -, rfl⟩ := List.mem_map.mp hw
      exact absurd hclaims.1 (Append.not_holds_start b)
    · rintro ⟨hle, hlt⟩
      exact absurd hlt (Nat.not_lt.mpr hle)
  stored_placed w hw events hstored := by
    obtain ⟨b, -, rfl⟩ := List.mem_map.mp hw
    exact absurd (Append.Holds.of_stored? hstored) (Append.not_holds_start b)
  mem_iff e := by
    refine (or_iff_left ?_).symm
    rintro ⟨w, hw, events, hstored, -⟩
    obtain ⟨b, -, rfl⟩ := List.mem_map.mp hw
    exact absurd (Append.Holds.of_stored? hstored) (Append.not_holds_start b)

section Step

variable {s₀ : Store} {x : Interleaving Writer} {i : Nat} {w : Writer} {a' : Append}
  {s' : Store}

/-- A step that neither claims nor commits. -/
theorem Accounted.nothing (h : x.Accounted s₀) (hi : x.states[i]? = some w)
    (hsound : a'.Sound w.batch) (hholds : a'.Holds ↔ w.append.Holds)
    (hstored : a'.stored? = w.append.stored?) (hagrees : s'.Agrees x.store) :
    Accounted s₀ ⟨s', x.states.set i ⟨w.batch, a'⟩⟩ := by
  have hmem : w ∈ x.states := List.mem_of_getElem? hi
  have hversion := Store.version_congr hagrees.heads
  have hclaims : ∀ stream n, Writer.Claims ⟨w.batch, a'⟩ stream n ↔ w.Claims stream n :=
    fun stream n => and_congr_left fun _ => hholds
  have hhas : ∀ e, Writer.HasStored ⟨w.batch, a'⟩ e ↔ w.HasStored e := fun e => by
    simp only [Writer.HasStored, hstored]
  refine ⟨hagrees.ordered h.ordered, h.inPlace.congr hagrees.heads,
    forall_mem_set h.sound hsound, ?_, fun stream => ?_, fun stream n => ?_, ?_, fun e => ?_⟩
  · refine pairwise_set Writer.Apart.symm h.apart fun j v hij hj stream n hv hw => ?_
    exact pairwise_getElem? Writer.Apart.symm h.apart hij hi hj stream n ((hclaims _ _).mp hw) hv
  · rw [hversion]
    exact h.version_le stream
  · rw [hversion, exists_mem_set_iff hi (hclaims stream n).mpr, hclaims, ← h.claimed_iff]
    exact or_iff_left_of_imp fun hw => ⟨w, hmem, hw⟩
  · exact forall_mem_set h.stored_placed fun events hev =>
      h.stored_placed w hmem events (hstored ▸ hev)
  · rw [hagrees.events.toList, exists_mem_set_iff hi (hhas e).mpr, hhas, h.mem_iff]
    exact or_congr_right (or_iff_left_of_imp fun hw => ⟨w, hmem, hw⟩).symm

/-- A step that claims the versions from the head on. -/
theorem Accounted.claim (h : x.Accounted s₀) (hi : x.states[i]? = some w)
    (hsound : a'.Sound w.batch) (hfree : ¬w.append.Holds) (hholds : a'.Holds)
    (hstored : a'.stored? = none) (hds : w.batch.drafts ≠ []) {head : Head}
    (hexpected : x.store.version w.batch.stream = w.batch.expected)
    (hstream : head.stream = w.batch.stream) (hversion : head.version = w.batch.version) :
    Accounted s₀ ⟨x.store.withHead head, x.states.set i ⟨w.batch, a'⟩⟩ := by
  have hlt := Batch.expected_lt_version hds
  have hnone : w.append.stored? = none := by
    rw [Option.eq_none_iff_forall_ne_some]
    exact fun events hev => hfree (.of_stored? hev)
  have hle := h.version_le
  refine ⟨h.ordered.withHead head, h.inPlace.withHead (by omega),
    forall_mem_set h.sound hsound, ?_, fun stream => ?_, fun stream n => ?_, ?_, fun e => ?_⟩
  · -- what others have claimed lies below the head, what is claimed now does not
    refine pairwise_set Writer.Apart.symm h.apart fun j v hij hj stream n hv hw => ?_
    obtain ⟨-, rfl, hlow, -⟩ := hw
    have hbelow := ((h.claimed_iff _ n).mp ⟨v, List.mem_of_getElem? hj, hv⟩).2
    simp only at hlow hbelow
    omega
  · rw [Store.version_withHead]
    have := hle stream
    split
    · next heq =>
      rw [heq, hstream] at this
      rw [heq, hstream]
      omega
    · exact this
  · rw [exists_mem_set_iff hi fun hw => absurd hw.1 hfree, h.claimed_iff,
      Store.version_withHead]
    have := hle w.batch.stream
    split
    · next heq =>
      rw [heq, hstream, hversion]
      simp only [Writer.Claims, hholds, true_and]
      omega
    · next hne =>
      refine or_iff_left fun hw => hne ?_
      rw [hstream]
      exact hw.2.1.symm
  · exact forall_mem_set h.stored_placed fun events hev => by simp [hstored] at hev
  · rw [exists_mem_set_iff hi fun ⟨events, hev, _⟩ => by simp [hnone] at hev]
    refine (h.mem_iff e).trans (or_congr_right (or_iff_left ?_).symm)
    rintro ⟨events, hev, -⟩
    simp [hstored] at hev

/-- A step that commits the batch. -/
theorem Accounted.commit (h : x.Accounted s₀) (hi : x.states[i]? = some w)
    (hsound : a'.Sound w.batch) (hheld : w.append.Holds) (hnone : w.append.stored? = none)
    (hholds : a'.Holds) {first : Nat} (hstored : a'.stored? = some (w.batch.placed first))
    (hgains : x.store.Gains (w.batch.placed first) s') :
    Accounted s₀ ⟨s', x.states.set i ⟨w.batch, a'⟩⟩ := by
  have hmem : w ∈ x.states := List.mem_of_getElem? hi
  have hversion := Store.version_congr hgains.heads
  have hclaims : ∀ stream n, Writer.Claims ⟨w.batch, a'⟩ stream n ↔ w.Claims stream n :=
    fun stream n => and_congr_left fun _ => iff_of_true hholds hheld
  refine ⟨hgains.ordered, h.inPlace.congr hgains.heads, forall_mem_set h.sound hsound, ?_,
    fun stream => ?_, fun stream n => ?_, ?_, fun e => ?_⟩
  · refine pairwise_set Writer.Apart.symm h.apart fun j v hij hj stream n hv hw => ?_
    exact pairwise_getElem? Writer.Apart.symm h.apart hij hi hj stream n ((hclaims _ _).mp hw) hv
  · rw [hversion]
    exact h.version_le stream
  · rw [hversion, exists_mem_set_iff hi (hclaims stream n).mpr, hclaims, ← h.claimed_iff]
    exact or_iff_left_of_imp fun hw => ⟨w, hmem, hw⟩
  · refine forall_mem_set h.stored_placed fun events hev => ⟨first, ?_⟩
    rw [hstored] at hev
    exact (Option.some.inj hev).symm
  · have hhas : Writer.HasStored ⟨w.batch, a'⟩ e ↔ e ∈ w.batch.placed first := by
      simp [Writer.HasStored, hstored]
    rw [exists_mem_set_iff hi fun ⟨events, hev, _⟩ => by simp [hnone] at hev, hhas,
      hgains.mem_iff, h.mem_iff, or_assoc]

theorem Accounted.step (h : x.Accounted s₀) (hi : x.states[i]? = some w) :
    Accounted s₀ ⟨(w.next.step none w x.store).2,
      x.states.set i (w.next.step none w x.store).1⟩ := by
  have hw := h.sound w (List.mem_of_getElem? hi)
  have hstep := Append.step_next h.ordered h.inPlace hw
  rw [Writer.step_next]
  cases hstep.effect hw with
  | nothing hholds hstored hagrees =>
    exact h.nothing hi (hstep.sound hw) hholds hstored hagrees
  | claim head hfree hholds hstored hds hexpected hstream hversion heq =>
    rw [heq]
    exact h.claim hi (hstep.sound hw) hfree hholds hstored hds hexpected hstream hversion
  | commit hheld hnone hholds hstored hgains =>
    exact h.commit hi (hstep.sound hw) hheld hnone hholds hstored hgains

end Step

/-- **Whatever order the calls come in, the invariant holds.** -/
theorem Accounted.run {s₀ : Store} {x : Interleaving Writer} (h : x.Accounted s₀)
    (schedule : List Nat) : (x.run Writer.next schedule).Accounted s₀ :=
  run_induction schedule h fun _ _ _ h hi => h.step hi

/-- **A version has one claimant.** -/
theorem Accounted.eq_of_claims {s₀ : Store} {x : Interleaving Writer} (h : x.Accounted s₀)
    {i j : Nat} {w w' : Writer} (hi : x.states[i]? = some w) (hj : x.states[j]? = some w')
    {stream : Uuid} {n : Nat} (hw : w.Claims stream n) (hw' : w'.Claims stream n) : i = j := by
  by_contra hij
  exact pairwise_getElem? Writer.Apart.symm h.apart hij hi hj stream n hw hw'

/-! ### When all claims are committed -/

/-- A writer commits events only at versions that it has claimed. -/
theorem Accounted.claims_of_hasStored {s₀ : Store} {x : Interleaving Writer}
    (h : x.Accounted s₀) {w : Writer} (hw : w ∈ x.states) {e : Event} (he : w.HasStored e) :
    w.Claims e.stream e.index := by
  obtain ⟨events, hstored, he⟩ := he
  obtain ⟨first, rfl⟩ := h.stored_placed w hw events hstored
  exact ⟨.of_stored? hstored, Batch.exists_mem_placed_iff.mp ⟨e, he, rfl, rfl⟩⟩

/-- A writer that has claimed versions has claimed the first of its batch. -/
theorem Accounted.claims_expected {s₀ : Store} {x : Interleaving Writer} (h : x.Accounted s₀)
    {w : Writer} (hw : w ∈ x.states) (hholds : w.append.Holds) :
    w.Claims w.batch.stream w.batch.expected := by
  refine ⟨hholds, rfl, le_rfl, Batch.expected_lt_version ((h.sound w hw).nonempty ?_)⟩
  rintro r hr
  obtain ⟨c, hc⟩ := hholds
  exact nomatch hc.symm.trans hr

/-- **What is claimed and not yet committed is free.** -/
theorem Accounted.place_free {s₀ : Store} {x : Interleaving Writer} (h : x.Accounted s₀)
    (hs : s₀.Settled) {i : Nat} {w : Writer} (hi : x.states[i]? = some w)
    (hholds : w.append.Holds) (hnone : w.append.stored? = none) (e : Event)
    (he : e ∈ x.store.events.toList) (hst : e.stream = w.batch.stream) :
    e.index < w.batch.expected ∨ w.batch.version ≤ e.index := by
  have hw := h.claims_expected (List.mem_of_getElem? hi) hholds
  rcases (h.mem_iff e).mp he with he | ⟨v, hv, hstored⟩
  · have hlow := ((h.claimed_iff _ _).mp ⟨w, List.mem_of_getElem? hi, hw⟩).1
    have hold := (hs.index_iff _ _).mp ⟨e, he, hst, rfl⟩
    exact Or.inl (lt_of_lt_of_le hold hlow)
  · by_contra hin
    have hclaims := h.claims_of_hasStored hv hstored
    obtain ⟨j, hj⟩ := List.getElem?_of_mem hv
    obtain rfl := h.eq_of_claims hi hj ⟨hholds, hst.symm, by omega, by omega⟩ hclaims
    obtain rfl := Option.some.inj (hi.symm.trans hj)
    obtain ⟨events, hev, -⟩ := hstored
    exact nomatch hev.symm.trans hnone

/-- **Claims that are all committed leave a settled store settled.** -/
theorem Accounted.settled {s₀ : Store} {x : Interleaving Writer} (h : x.Accounted s₀)
    (hs : s₀.Settled)
    (hall : ∀ w ∈ x.states, w.append.Holds → ∃ events, w.append.stored? = some events) :
    x.store.Settled where
  ordered := h.ordered
  inPlace := h.inPlace
  index_iff stream n := by
    have hle := h.version_le stream
    constructor
    · rintro ⟨e, he, rfl, rfl⟩
      rcases (h.mem_iff e).mp he with he | ⟨w, hw, he⟩
      · exact lt_of_lt_of_le ((hs.index_iff _ _).mp ⟨e, he, rfl, rfl⟩) hle
      · exact ((h.claimed_iff _ _).mp ⟨w, hw, h.claims_of_hasStored hw he⟩).2
    · intro hn
      by_cases hold : n < s₀.version stream
      · obtain ⟨e, he, hplace⟩ := (hs.index_iff stream n).mpr hold
        exact ⟨e, (h.mem_iff e).mpr (Or.inl he), hplace⟩
      · obtain ⟨w, hw, hholds, hrange⟩ := (h.claimed_iff stream n).mpr ⟨by omega, hn⟩
        obtain ⟨events, hstored⟩ := hall w hw hholds
        obtain ⟨first, rfl⟩ := h.stored_placed w hw events hstored
        obtain ⟨e, he, hplace⟩ := Batch.exists_mem_placed_iff.mpr hrange
        exact ⟨e, (h.mem_iff e).mpr (Or.inr ⟨w, hw, _, hstored, he⟩), hplace⟩

end Interleaving

/-- **A store that writers have left behind**, having begun with a new one: all of them have
returned, and none was told of a failure of the store. -/
def Store.Reached (s : Store) : Prop :=
  ∃ batches schedule,
    ((Interleaving.ofBatches .empty batches).run Writer.next schedule).store = s ∧
    ∀ w ∈ ((Interleaving.ofBatches .empty batches).run Writer.next schedule).states,
      ∃ r, w.result? = some r ∧ ∀ e, r ≠ .error (.store e)

theorem Store.Reached.settled {s : Store} (h : s.Reached) : s.Settled := by
  obtain ⟨batches, schedule, rfl, hall⟩ := h
  have hempty := settled_empty
  refine ((Interleaving.accounted_ofBatches hempty.ordered hempty.inPlace batches).run
    schedule).settled hempty fun w hw ⟨c, hc⟩ => ?_
  obtain ⟨r, hr, hne⟩ := hall w hw
  rw [Writer.result?_eq] at hr
  rcases Append.result?_next_eq_some_iff.mp hr with hdone | ⟨e, -, rfl⟩ | ⟨events, hstored, -⟩
  · exact nomatch hc.symm.trans hdone
  · exact absurd rfl (hne e)
  · exact ⟨events, hstored⟩

end EventJournal
