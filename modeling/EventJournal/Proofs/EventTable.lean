import EventJournal.Proofs.SortedMap
import EventJournal.Store.EventTable

/-!
# The table of events and its indexes

Two events *clash* (`EventJournal.Event.Clash`) if they share a position, an identifier or a
place in a stream. A table is *coherent* (`EventJournal.EventTable.Coherent`) if its two
indexes say of the events what the events say of themselves; then it can be spoken of as the
set of its events, no two of which clash.

| operation | on a coherent table | theorem |
|---|---|---|
| one event | goes in unless it clashes with a stored one | `EventTable.insert_isOk_iff` |
| a batch | goes in as a whole unless something clashes | `EventTable.insertAll_eq_none_iff` |
| a refused batch | leaves nothing behind | `EventTable.insertAll_agrees` |

The last of these needs no coherence. The undoing of a refused batch removes by key, and
removes the events in the order in which they came, not in the reverse one; it is exact
because an event is only ever inserted where no key of it was taken
(`EventJournal.EventTable.Added`).
-/

namespace EventJournal

/-- **Two events that cannot both be stored.** -/
def Event.Clash (a b : Event) : Prop :=
  a.position = b.position ∨ a.id = b.id ∨ (a.stream = b.stream ∧ a.index = b.index)

theorem Event.Clash.symm {a b : Event} (h : a.Clash b) : b.Clash a := by
  rcases h with h | h | ⟨h, h'⟩
  · exact Or.inl h.symm
  · exact Or.inr (Or.inl h.symm)
  · exact Or.inr (Or.inr ⟨h.symm, h'.symm⟩)

namespace EventTable

/-! ### What the indexes say -/

/-- **The indexes describe the events.** -/
structure Coherent (t : EventTable) : Prop where
  /-- An event stands at its position. -/
  position_eq : ∀ {p e}, t.byPosition.get? p = some e → e.position = p
  /-- The index of identifiers. -/
  byId_iff : ∀ {id p}, t.byId.get? id = some p ↔ ∃ e, t.byPosition.get? p = some e ∧ e.id = id
  /-- The index of a stream. -/
  indexOf_iff : ∀ {stream i p}, (t.indexOf stream).get? i = some p ↔
    ∃ e, t.byPosition.get? p = some e ∧ e.stream = stream ∧ e.index = i

theorem coherent_empty : empty.Coherent where
  position_eq := nofun
  byId_iff := ⟨nofun, fun ⟨_, h, _⟩ => nomatch h⟩
  indexOf_iff := ⟨nofun, fun ⟨_, h, _⟩ => nomatch h⟩

variable {t u : EventTable}

theorem Coherent.mem_toList_iff (h : t.Coherent) {e : Event} :
    e ∈ t.toList ↔ t.byPosition.get? e.position = some e := by
  refine SortedMap.mem_values_iff.trans ⟨fun ⟨p, hp⟩ => ?_, fun he => ⟨_, he⟩⟩
  rw [h.position_eq hp]
  exact hp

/-- **The position of an identifier** is the position of its event. -/
theorem Coherent.positionOf_eq_some_iff (h : t.Coherent) {id : Uuid} {p : Nat} :
    t.positionOf id = some p ↔ ∃ e ∈ t.toList, e.id = id ∧ e.position = p := by
  refine h.byId_iff.trans ⟨fun ⟨e, he, hid⟩ => ?_, fun ⟨e, he, hid, hp⟩ => ?_⟩
  · have hp := h.position_eq he
    exact ⟨e, h.mem_toList_iff.mpr (hp ▸ he), hid, hp⟩
  · exact ⟨e, hp ▸ h.mem_toList_iff.mp he, hid⟩

/-- **Stored events that clash are one event.** -/
theorem Coherent.eq_of_clash (h : t.Coherent) {a b : Event} (ha : a ∈ t.toList)
    (hb : b ∈ t.toList) (hab : a.Clash b) : a = b := by
  rw [h.mem_toList_iff] at ha hb
  have hpos : a.position = b.position → a = b := fun hp => by
    rw [hp, hb] at ha
    exact (Option.some.inj ha).symm
  rcases hab with hp | hid | ⟨hs, hi⟩
  · exact hpos hp
  · have ha' := h.byId_iff.mpr ⟨a, ha, rfl⟩
    rw [hid, h.byId_iff.mpr ⟨b, hb, rfl⟩] at ha'
    exact hpos (Option.some.inj ha').symm
  · have ha' := h.indexOf_iff.mpr ⟨a, ha, rfl, rfl⟩
    rw [hs, hi, h.indexOf_iff.mpr ⟨b, hb, rfl, rfl⟩] at ha'
    exact hpos (Option.some.inj ha').symm

/-! ### One event -/

/-- What it takes to insert an event, and what the table then is. -/
theorem insert_eq_ok_iff {e : Event} :
    t.insert e = .ok u ↔
      (t.byPosition.get? e.position = none ∧ t.byId.get? e.id = none ∧
        (t.indexOf e.stream).get? e.index = none) ∧
      u = { byPosition := t.byPosition.insert e.position e
            byStream := t.byStream.insert e.stream ((t.indexOf e.stream).insert e.index e.position)
            byId := t.byId.insert e.id e.position } := by
  rw [← SortedMap.contains_eq_false_iff, ← SortedMap.contains_eq_false_iff,
    ← SortedMap.contains_eq_false_iff]
  rw [insert]
  cases t.byPosition.contains e.position <;> cases t.byId.contains e.id <;>
    cases (t.indexOf e.stream).contains e.index <;> simp [eq_comm]

/-- **An event that cannot be inserted** has a key that is taken. -/
theorem duplicate_of_insert {e : Event} {err : StoreError} (h : t.insert e = .error err) :
    ∃ entity key, err = .duplicate entity key := by
  rw [insert] at h
  split at h
  · exact ⟨_, _, (Except.error.inj h).symm⟩
  · split at h
    · exact ⟨_, _, (Except.error.inj h).symm⟩
    · split at h
      · exact ⟨_, _, (Except.error.inj h).symm⟩
      · cases h

theorem indexOf_insert {e : Event} (h : t.insert e = .ok u) (stream : Uuid) (i : Nat) :
    (u.indexOf stream).get? i =
      if stream = e.stream ∧ i = e.index then some e.position
      else (t.indexOf stream).get? i := by
  obtain ⟨-, rfl⟩ := insert_eq_ok_iff.mp h
  by_cases hs : stream = e.stream
  · subst hs
    simp [indexOf, SortedMap.get?_insert]
  · simp [indexOf, SortedMap.get?_insert, hs]

/-- **An event goes in unless it clashes with a stored one.** -/
theorem insert_isOk_iff (h : t.Coherent) {e : Event} :
    (∃ u, t.insert e = .ok u) ↔ ∀ x ∈ t.toList, ¬x.Clash e := by
  simp only [insert_eq_ok_iff, exists_and_left, exists_eq, and_true]
  constructor
  · rintro ⟨hp, hid, hi⟩ x hx hclash
    rw [h.mem_toList_iff] at hx
    rcases hclash with hc | hc | ⟨hs, hc⟩
    · rw [← hc, hx] at hp
      cases hp
    · rw [← hc, h.byId_iff.mpr ⟨x, hx, rfl⟩] at hid
      cases hid
    · rw [← hs, ← hc, h.indexOf_iff.mpr ⟨x, hx, rfl, rfl⟩] at hi
      cases hi
  · intro hfree
    have hstored : ∀ {p x}, t.byPosition.get? p = some x → x ∈ t.toList := fun hx =>
      h.mem_toList_iff.mpr (h.position_eq hx ▸ hx)
    refine ⟨?_, ?_, ?_⟩ <;> refine Option.eq_none_iff_forall_ne_some.mpr fun p hp => ?_
    · exact hfree p (hstored hp) (Or.inl (h.position_eq hp))
    · obtain ⟨x, hx, hid⟩ := h.byId_iff.mp hp
      exact hfree x (hstored hx) (Or.inr (Or.inl hid))
    · obtain ⟨x, hx, hplace⟩ := h.indexOf_iff.mp hp
      exact hfree x (hstored hx) (Or.inr (Or.inr hplace))

/-- **Inserting an event keeps the indexes right.** -/
theorem Coherent.insert (h : t.Coherent) {e : Event} (hu : t.insert e = .ok u) : u.Coherent := by
  obtain ⟨⟨hp, hid, hi⟩, heq⟩ := insert_eq_ok_iff.mp hu
  have hget : ∀ p, u.byPosition.get? p = if p = e.position then some e else t.byPosition.get? p :=
    fun p => heq ▸ SortedMap.get?_insert _ _ _ _
  refine ⟨fun {p x} hx => ?_, fun {id p} => ?_, fun {stream i p} => ?_⟩
  · rw [hget] at hx
    split at hx
    · next hpe => rw [← Option.some.inj hx, hpe]
    · exact h.position_eq hx
  · have hbyId : u.byId.get? id = if id = e.id then some e.position else t.byId.get? id :=
      heq ▸ SortedMap.get?_insert _ _ _ _
    rw [hbyId]
    simp only [hget]
    constructor
    · split
      · next hide => exact fun hpe => ⟨e, by simp [← Option.some.inj hpe], hide.symm⟩
      · intro hp'
        obtain ⟨x, hx, hxid⟩ := h.byId_iff.mp hp'
        refine ⟨x, ?_, hxid⟩
        rw [if_neg (fun hpe => by rw [hpe, hp] at hx; cases hx)]
        exact hx
    · rintro ⟨x, hx, rfl⟩
      split at hx
      · next hpe => simp [← Option.some.inj hx, hpe]
      · have hxid := h.byId_iff.mpr ⟨x, hx, rfl⟩
        rw [if_neg (fun hide => by rw [hide, hid] at hxid; cases hxid)]
        exact hxid
  · rw [indexOf_insert hu]
    simp only [hget]
    constructor
    · split
      · next hpl => exact fun hpe => ⟨e, by simp [← Option.some.inj hpe], hpl.1.symm, hpl.2.symm⟩
      · intro hp'
        obtain ⟨x, hx, hplace⟩ := h.indexOf_iff.mp hp'
        refine ⟨x, ?_, hplace⟩
        rw [if_neg (fun hpe => by rw [hpe, hp] at hx; cases hx)]
        exact hx
    · rintro ⟨x, hx, rfl, rfl⟩
      split at hx
      · next hpe => simp [← Option.some.inj hx, hpe]
      · have hplace := h.indexOf_iff.mpr ⟨x, hx, rfl, rfl⟩
        rw [if_neg (fun hpl => by rw [hpl.1, hpl.2, hi] at hplace; cases hplace)]
        exact hplace

theorem Coherent.mem_toList_insert (h : t.Coherent) {e x : Event} (hu : t.insert e = .ok u) :
    x ∈ u.toList ↔ x ∈ t.toList ∨ x = e := by
  obtain ⟨⟨hp, -, -⟩, heq⟩ := insert_eq_ok_iff.mp hu
  have hget : u.byPosition.get? x.position =
      if x.position = e.position then some e else t.byPosition.get? x.position :=
    heq ▸ SortedMap.get?_insert _ _ _ _
  rw [(h.insert hu).mem_toList_iff, h.mem_toList_iff, hget]
  split
  · next hxe =>
    rw [hxe, hp, Option.some.injEq]
    exact ⟨fun he => Or.inr he.symm, fun he => (he.resolve_left fun hnone => by cases hnone).symm⟩
  · next hxe => exact ⟨Or.inl, fun he => he.resolve_right fun hx => hxe (hx ▸ rfl)⟩

/-! ### A batch -/

/-- **The batch goes in as a whole unless something clashes.** -/
theorem insertAfter_eq_none_iff {inserted events : List Event} (h : t.Coherent) :
    (insertAfter inserted t events).1 = none ↔
      (∀ x ∈ t.toList, ∀ e ∈ events, ¬x.Clash e) ∧ events.Pairwise fun a b => ¬a.Clash b := by
  induction events generalizing inserted t with
  | nil => simp [insertAfter]
  | cons e rest ih =>
    rw [List.pairwise_cons]
    rw [insertAfter]
    split
    · next u hu =>
      have hfree := (insert_isOk_iff h).mp ⟨u, hu⟩
      rw [ih (h.insert hu)]
      simp only [h.mem_toList_insert hu, List.forall_mem_cons, or_imp, forall_and, forall_eq]
      exact ⟨fun ⟨⟨hs, he⟩, hr⟩ => ⟨⟨hfree, hs⟩, he, hr⟩, fun ⟨⟨_, hs⟩, he, hr⟩ => ⟨⟨hs, he⟩, hr⟩⟩
    · next err herr =>
      refine ⟨nofun, fun ⟨hs, _⟩ => ?_⟩
      obtain ⟨u, hu⟩ := (insert_isOk_iff h).mpr fun x hx => hs x hx e List.mem_cons_self
      rw [hu] at herr
      exact nomatch herr

theorem insertAll_eq_none_iff {events : List Event} (h : t.Coherent) :
    (t.insertAll events).1 = none ↔
      (∀ x ∈ t.toList, ∀ e ∈ events, ¬x.Clash e) ∧ events.Pairwise fun a b => ¬a.Clash b :=
  insertAfter_eq_none_iff h

theorem insertAfter_of_none {inserted events : List Event} (h : t.Coherent)
    (hnone : (insertAfter inserted t events).1 = none) :
    (insertAfter inserted t events).2.Coherent ∧
      ∀ x, x ∈ (insertAfter inserted t events).2.toList ↔ x ∈ t.toList ∨ x ∈ events := by
  induction events generalizing inserted t with
  | nil => exact ⟨h, fun x => by simp [insertAfter]⟩
  | cons e rest ih =>
    unfold insertAfter at hnone ⊢
    split
    · next u hu =>
      simp only [hu] at hnone
      obtain ⟨hcoh, hmem⟩ := ih (h.insert hu) hnone
      refine ⟨hcoh, fun x => ?_⟩
      rw [hmem, h.mem_toList_insert hu, List.mem_cons, or_assoc]
    · next err herr =>
      simp only [herr] at hnone
      exact nomatch hnone

/-- **An inserted batch is added to the events, and nothing else is.** -/
theorem insertAll_of_none {events : List Event} (h : t.Coherent)
    (hnone : (t.insertAll events).1 = none) :
    (t.insertAll events).2.Coherent ∧
      ∀ x, x ∈ (t.insertAll events).2.toList ↔ x ∈ t.toList ∨ x ∈ events :=
  insertAfter_of_none h hnone

/-! ### A refused batch -/

theorem duplicate_of_insertAfter {inserted events : List Event} {err : StoreError}
    (herr : (insertAfter inserted t events).1 = some err) :
    ∃ entity key, err = .duplicate entity key := by
  induction events generalizing inserted t with
  | nil => exact nomatch herr
  | cons e rest ih =>
    rw [insertAfter] at herr
    split at herr
    · exact ih herr
    · next hinsert =>
      obtain rfl := Option.some.inj herr
      exact duplicate_of_insert hinsert

/-- **A batch is refused** because a key of an event is taken. -/
theorem duplicate_of_insertAll {events : List Event} {err : StoreError}
    (herr : (t.insertAll events).1 = some err) : ∃ entity key, err = .duplicate entity key :=
  duplicate_of_insertAfter herr

/-- **Two tables that no read can tell apart.** An index with nothing in it is as good as
none. -/
structure Agrees (t u : EventTable) : Prop where
  /-- The same events. -/
  byPosition : t.byPosition = u.byPosition
  /-- The same identifiers. -/
  byId : t.byId = u.byId
  /-- The same places in every stream. -/
  indexOf : ∀ stream, t.indexOf stream = u.indexOf stream

@[refl] theorem Agrees.refl (t : EventTable) : t.Agrees t := ⟨rfl, rfl, fun _ => rfl⟩

theorem Agrees.toList (h : t.Agrees u) : t.toList = u.toList :=
  congrArg SortedMap.values h.byPosition

theorem Agrees.positionOf (h : t.Agrees u) : t.positionOf = u.positionOf :=
  congrArg SortedMap.get? h.byId

theorem Agrees.after (h : t.Agrees u) : t.after = u.after := by
  funext position limit
  cases position with
  | none => exact congrArg (List.take limit) h.toList
  | some p => simp only [EventTable.after, h.byPosition]

theorem Agrees.ofStream (h : t.Agrees u) : t.ofStream = u.ofStream := by
  funext stream first last
  simp only [EventTable.ofStream, h.byPosition, h.indexOf]

theorem Agrees.size (h : t.Agrees u) : t.size = u.size := congrArg SortedMap.size h.byPosition

/-- **What can be inserted is a matter of what is read.** -/
theorem Agrees.insert (h : t.Agrees u) (e : Event) :
    (∃ err, t.insert e = .error err ∧ u.insert e = .error err) ∨
      ∃ t' u', t.insert e = .ok t' ∧ u.insert e = .ok u' ∧ t'.Agrees u' := by
  simp only [EventTable.insert, h.byPosition, h.byId, h.indexOf]
  split
  · exact Or.inl ⟨_, rfl, rfl⟩
  · split
    · exact Or.inl ⟨_, rfl, rfl⟩
    · split
      · exact Or.inl ⟨_, rfl, rfl⟩
      · refine Or.inr ⟨_, _, rfl, rfl, rfl, rfl, fun stream => ?_⟩
        rcases eq_or_ne stream e.stream with rfl | hne
        · simp [EventTable.indexOf]
        · simpa [EventTable.indexOf, SortedMap.get?_insert, hne] using h.indexOf stream

theorem Agrees.insertAfter_fst (h : t.Agrees u) (inserted inserted' events : List Event) :
    (insertAfter inserted t events).1 = (EventTable.insertAfter inserted' u events).1 := by
  induction events generalizing inserted inserted' t u with
  | nil => rfl
  | cons e rest ih =>
    rw [EventTable.insertAfter, EventTable.insertAfter]
    rcases h.insert e with ⟨err, ht, hu⟩ | ⟨t', u', ht, hu, hagrees⟩
    · simp only [ht, hu]
    · simp only [ht, hu]
      exact ih hagrees _ _

theorem Agrees.insertAll_fst (h : t.Agrees u) (events : List Event) :
    (t.insertAll events).1 = (u.insertAll events).1 := h.insertAfter_fst [] [] events

/-- Coherence is a matter of what is read. -/
theorem Agrees.coherent (h : t.Agrees u) (hu : u.Coherent) : t.Coherent where
  position_eq := by rw [h.byPosition]; exact hu.position_eq
  byId_iff := by rw [h.byId, h.byPosition]; exact hu.byId_iff
  indexOf_iff := by
    intro stream i p
    rw [h.indexOf, h.byPosition]
    exact hu.indexOf_iff

/-- **A table to which events were added one by one**, each where none of its keys was
taken. Where no key of theirs is, the two tables are the same. -/
structure Added (t : EventTable) (events : List Event) (u : EventTable) : Prop where
  /-- The positions were free. -/
  position_free : ∀ e ∈ events, t.byPosition.get? e.position = none
  /-- The identifiers were free. -/
  id_free : ∀ e ∈ events, t.byId.get? e.id = none
  /-- The places in the streams were free. -/
  place_free : ∀ e ∈ events, (t.indexOf e.stream).get? e.index = none
  /-- The other positions. -/
  position_same : ∀ p, (∀ e ∈ events, p ≠ e.position) → u.byPosition.get? p = t.byPosition.get? p
  /-- The other identifiers. -/
  id_same : ∀ id, (∀ e ∈ events, id ≠ e.id) → u.byId.get? id = t.byId.get? id
  /-- The other places in the streams. -/
  place_same : ∀ stream i, (∀ e ∈ events, ¬(stream = e.stream ∧ i = e.index)) →
    (u.indexOf stream).get? i = (t.indexOf stream).get? i

theorem Added.nil (t : EventTable) : t.Added [] t :=
  ⟨nofun, nofun, nofun, fun _ _ => rfl, fun _ _ => rfl, fun _ _ _ => rfl⟩

/-- A key that is free after some were added was free before, and is none of theirs. -/
theorem Added.snoc {events : List Event} {e : Event} {v : EventTable} (h : t.Added events u)
    (hv : u.insert e = .ok v) : t.Added (events ++ [e]) v := by
  obtain ⟨⟨hp, hid, hi⟩, heq⟩ := insert_eq_ok_iff.mp hv
  refine ⟨?_, ?_, ?_, fun p hne => ?_, fun id hne => ?_, fun stream i hne => ?_⟩
  · refine List.forall_mem_append.mpr ⟨h.position_free, List.forall_mem_singleton.mpr ?_⟩
    by_cases hc : ∀ x ∈ events, e.position ≠ x.position
    · rw [← h.position_same _ hc, hp]
    · push Not at hc
      obtain ⟨x, hx, hxe⟩ := hc
      rw [hxe, h.position_free x hx]
  · refine List.forall_mem_append.mpr ⟨h.id_free, List.forall_mem_singleton.mpr ?_⟩
    by_cases hc : ∀ x ∈ events, e.id ≠ x.id
    · rw [← h.id_same _ hc, hid]
    · push Not at hc
      obtain ⟨x, hx, hxe⟩ := hc
      rw [hxe, h.id_free x hx]
  · refine List.forall_mem_append.mpr ⟨h.place_free, List.forall_mem_singleton.mpr ?_⟩
    by_cases hc : ∀ x ∈ events, ¬(e.stream = x.stream ∧ e.index = x.index)
    · rw [← h.place_same _ _ hc, hi]
    · push Not at hc
      obtain ⟨x, hx, hs, hxe⟩ := hc
      rw [hs, hxe, h.place_free x hx]
  · rw [List.forall_mem_append, List.forall_mem_singleton] at hne
    rw [← h.position_same p hne.1, heq]
    exact SortedMap.get?_insert_of_ne _ hne.2 _
  · rw [List.forall_mem_append, List.forall_mem_singleton] at hne
    rw [← h.id_same id hne.1, heq]
    exact SortedMap.get?_insert_of_ne _ hne.2 _
  · rw [List.forall_mem_append, List.forall_mem_singleton] at hne
    rw [← h.place_same stream i hne.1, indexOf_insert hv, if_neg hne.2]

theorem indexOf_remove (t : EventTable) (e : Event) (stream : Uuid) (i : Nat) :
    ((t.remove e).indexOf stream).get? i =
      if stream = e.stream ∧ i = e.index then none else (t.indexOf stream).get? i := by
  unfold indexOf remove
  by_cases hs : stream = e.stream
  · subst hs
    cases h : t.byStream.get? e.stream with
    | none => simp [h]
    | some index => simp [SortedMap.get?_erase]
  · cases h : t.byStream.get? e.stream with
    | none => simp [hs]
    | some index => simp [SortedMap.get?_insert, hs]

/-- **Removing events leaves a hole at each of their keys**, and all else as it was, in
whichever order they go. -/
theorem get?_foldl_remove (events : List Event) (t : EventTable) :
    (∀ p, (events.foldl remove t).byPosition.get? p =
      if ∃ e ∈ events, p = e.position then none else t.byPosition.get? p) ∧
    (∀ id, (events.foldl remove t).byId.get? id =
      if ∃ e ∈ events, id = e.id then none else t.byId.get? id) ∧
    ∀ stream i, ((events.foldl remove t).indexOf stream).get? i =
      if ∃ e ∈ events, stream = e.stream ∧ i = e.index then none
      else (t.indexOf stream).get? i := by
  induction events generalizing t with
  | nil => simp
  | cons e rest ih =>
    obtain ⟨hp, hid, hi⟩ := ih (t.remove e)
    simp only [List.foldl_cons, List.exists_mem_cons_iff]
    refine ⟨fun p => ?_, fun id => ?_, fun stream i => ?_⟩
    · rw [hp, remove, SortedMap.get?_erase]
      by_cases hc : p = e.position <;> simp [hc]
    · rw [hid, remove, SortedMap.get?_erase]
      by_cases hc : id = e.id <;> simp [hc]
    · rw [hi, indexOf_remove]
      by_cases hc : stream = e.stream ∧ i = e.index <;> simp [hc]

/-- **Taking out what was added gives the table back.** -/
theorem Added.agrees {events : List Event} (h : t.Added events u) :
    (events.foldl remove u).Agrees t := by
  obtain ⟨hp, hid, hi⟩ := get?_foldl_remove events u
  refine ⟨SortedMap.ext_get? fun p => ?_, SortedMap.ext_get? fun id => ?_,
    fun stream => SortedMap.ext_get? fun i => ?_⟩
  · rw [hp]
    split
    · next hc =>
      obtain ⟨e, he, rfl⟩ := hc
      exact (h.position_free e he).symm
    · next hc => exact h.position_same p fun e he hpe => hc ⟨e, he, hpe⟩
  · rw [hid]
    split
    · next hc =>
      obtain ⟨e, he, rfl⟩ := hc
      exact (h.id_free e he).symm
    · next hc => exact h.id_same id fun e he hide => hc ⟨e, he, hide⟩
  · rw [hi]
    split
    · next hc =>
      obtain ⟨e, he, rfl, rfl⟩ := hc
      exact (h.place_free e he).symm
    · next hc => exact h.place_same stream i fun e he hie => hc ⟨e, he, hie⟩

theorem Added.insertAfter_agrees {inserted events : List Event} {err : StoreError}
    (h : t.Added inserted u) (herr : (insertAfter inserted u events).1 = some err) :
    (insertAfter inserted u events).2.Agrees t := by
  induction events generalizing inserted u with
  | nil => exact nomatch herr
  | cons e rest ih =>
    unfold insertAfter at herr ⊢
    split
    · next v hv =>
      simp only [hv] at herr
      exact ih (h.snoc hv) herr
    · exact h.agrees

/-- **A refused batch leaves nothing behind.** -/
theorem insertAll_agrees {events : List Event} {err : StoreError}
    (herr : (t.insertAll events).1 = some err) : (t.insertAll events).2.Agrees t :=
  (Added.nil t).insertAfter_agrees herr

end EventTable

end EventJournal
