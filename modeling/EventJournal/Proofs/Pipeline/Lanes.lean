import EventJournal.Pipeline.Lanes
import EventJournal.Proofs.SortedMap
import Mathlib.Data.Finset.Card
import Mathlib.Data.List.Perm.Subperm

/-!
# The lanes, key by key

What lanes are is known by two functions of the key: whether it is busy
(`EventJournal.Lanes.isBusy`) and which elements wait for it (`EventJournal.Lanes.queue`). Every
operation is said through these.

| operation | answers | and the lane of its key |
|---|---|---|
| an offer | the element, if the key is idle | gets it at its end, if the key is busy |
| a completion | the first element of the lane | loses it, or ends if there is none |

Lanes do what they are for only if a key is completed once for every element of it that they have
released. The elements that are released and not completed are said to be in flight, and lanes
*carry* them (`EventJournal.Lanes.Carries`) if there is one of each busy key and none of an idle
one. Offering and completing keep it so, and neither loses an element, makes one up, or lets one
pass another of its key (`EventJournal.Lanes.filter_offer`,
`EventJournal.Lanes.Keyed.filter_complete`).
-/

namespace EventJournal

/-! ### Lists, key by key -/

section ByKey

variable {ε : Type} {l l' : List ε}

/-- Of one element at most there is one order. -/
theorem eq_of_perm_of_length_le_one (h : l.Perm l') (hle : l.length ≤ 1) : l = l' := by
  match l, hle with
  | [], _ => exact h.nil_eq
  | [e], _ => exact List.singleton_perm.mp h

variable {κ : Type} [DecidableEq κ] {keyOf : ε → κ}

/-- Lists with the same elements of every key have the same elements. -/
theorem perm_of_forall_filter
    (h : ∀ key, (l.filter (keyOf · = key)).Perm (l'.filter (keyOf · = key))) : l.Perm l' := by
  classical
  refine List.perm_iff_count.mpr fun e => ?_
  have hcount := (h (keyOf e)).count_eq e
  rwa [List.count_filter (by simp), List.count_filter (by simp)] at hcount

/-- A list that has no more elements of any key than another has no more elements. -/
theorem subperm_of_forall_filter
    (h : ∀ key, (l.filter (keyOf · = key)).Subperm (l'.filter (keyOf · = key))) :
    l.Subperm l' := by
  classical
  refine List.subperm_ext_iff.mpr fun e _ => ?_
  have hcount := (h (keyOf e)).count_le e
  rwa [List.count_filter (by simp), List.count_filter (by simp)] at hcount

end ByKey

/-! ### Lanes -/

namespace Lanes

variable {κ ε : Type} [LT κ] [DecidableLT κ]

/-- The elements that wait for a key. -/
def queue (l : Lanes κ ε) (key : κ) : List ε := (l.queues.get? key).getD []

/-- Whether a key is busy. -/
def isBusy (l : Lanes κ ε) (key : κ) : Bool := l.queues.contains key

@[simp] theorem queue_empty (key : κ) : (empty : Lanes κ ε).queue key = [] := rfl

@[simp] theorem isBusy_empty (key : κ) : (empty : Lanes κ ε).isBusy key = false := rfl

variable [KeyOrder κ] {l : Lanes κ ε} {key k : κ} {e x : ε}

omit [KeyOrder κ] in
theorem mem_queue_iff :
    e ∈ l.queue key ↔ ∃ queue, l.queues.get? key = some queue ∧ e ∈ queue := by
  rw [queue]
  cases l.queues.get? key <;> simp

omit [KeyOrder κ] in
/-- Elements wait for busy keys only. -/
theorem isBusy_of_mem_queue (h : e ∈ l.queue key) : l.isBusy key = true := by
  obtain ⟨queue, hget, -⟩ := mem_queue_iff.mp h
  exact SortedMap.contains_eq_true_iff.mpr ⟨queue, hget⟩

omit [KeyOrder κ] in
/-- No element waits for an idle key. -/
theorem queue_eq_nil_of_idle (h : l.isBusy key = false) : l.queue key = [] := by
  refine List.eq_nil_iff_forall_not_mem.mpr fun e he => ?_
  exact absurd (isBusy_of_mem_queue he) (Bool.eq_false_iff.mp h)

/-- **All keys are idle if none is busy.** -/
theorem isIdle_iff : l.isIdle = true ↔ ∀ key, l.isBusy key = false := by
  rw [isIdle, List.isEmpty_iff]
  constructor
  · intro hnil key
    refine SortedMap.contains_eq_false_iff.mpr (Option.eq_none_iff_forall_ne_some.mpr ?_)
    intro queue hget
    have hmem := SortedMap.get?_eq_some_iff.mp hget
    rw [hnil] at hmem
    exact absurd hmem List.not_mem_nil
  · intro hidle
    refine List.eq_nil_iff_forall_not_mem.mpr fun entry hentry => ?_
    have hget := SortedMap.get?_eq_some_iff.mpr hentry
    have hnone := SortedMap.contains_eq_false_iff.mp (hidle entry.1)
    exact nomatch hget.symm.trans hnone

/-- A key is busy if it is one of those that have a lane. -/
theorem isBusy_iff_mem_keys : l.isBusy key = true ↔ key ∈ l.queues.keys := by
  rw [isBusy, SortedMap.contains_eq_true_iff, SortedMap.mem_keys_iff]

/-- **As many lanes as keys that are busy.** -/
theorem busy_eq_card {keys : Finset κ} (h : ∀ key, key ∈ keys ↔ l.isBusy key = true) :
    l.busy = keys.card := by
  classical
  have hnodup : l.queues.keys.Nodup :=
    List.pairwise_map.mpr (l.queues.ascending.imp SortedMap.ne_of_key_lt)
  have hkeys : keys = l.queues.keys.toFinset := by
    ext key
    rw [h, isBusy_iff_mem_keys, List.mem_toFinset]
  rw [hkeys, List.toFinset_card_of_nodup hnodup, SortedMap.length_keys]
  rfl

/-! ### What the operations do -/

/-- An element is released at once if its key is idle. -/
theorem offer_fst : (l.offer key e).1 = if l.isBusy key then none else some e := by
  rw [offer, isBusy, SortedMap.contains]
  cases l.queues.get? key <;> rfl

theorem isBusy_offer [DecidableEq κ] :
    (l.offer key e).2.isBusy k = (decide (k = key) || l.isBusy k) := by
  have hinsert : ∀ queue : List ε, (l.queues.insert key queue).contains k =
      (decide (k = key) || l.queues.contains k) := by
    intro queue
    rw [SortedMap.contains, SortedMap.get?_insert, SortedMap.contains]
    split <;> simp [*]
  rw [offer]
  cases l.queues.get? key with
  | some queue => exact hinsert (queue ++ [e])
  | none => exact hinsert []

/-- An element waits if its key is busy. -/
theorem queue_offer [DecidableEq κ] :
    (l.offer key e).2.queue k =
      if k = key ∧ l.isBusy key then l.queue k ++ [e] else l.queue k := by
  rw [offer, isBusy, SortedMap.contains, queue, queue]
  cases hget : l.queues.get? key with
  | some queue =>
    by_cases hk : k = key
    · subst hk
      simp [hget]
    · simp [SortedMap.get?_insert, hk]
  | none =>
    by_cases hk : k = key
    · subst hk
      simp [hget]
    · simp [SortedMap.get?_insert, hk]

/-- A completion releases the first element that waits. -/
theorem element?_complete : (l.complete key).1.element? = (l.queue key).head? := by
  rw [complete, queue]
  split
  · next hget => simp [hget, Completion.element?]
  · next hget => simp [hget, Completion.element?]
  · next hget => simp [hget, Completion.element?]

/-- A completion of an idle key changes nothing. -/
theorem complete_of_idle (h : l.isBusy key = false) : l.complete key = (.stray, l) := by
  rw [isBusy, SortedMap.contains_eq_false_iff] at h
  rw [complete, h]

theorem queue_complete [DecidableEq κ] :
    (l.complete key).2.queue k = if k = key then (l.queue k).tail else l.queue k := by
  rw [complete]
  by_cases hk : k = key
  · subst hk
    split
    · next hget => simp [queue, hget]
    · next hget => simp [queue, hget]
    · next hget => simp [queue, hget]
  · split
    · simp [queue, SortedMap.get?_insert, hk]
    · simp [queue, SortedMap.get?_erase, hk]
    · simp [hk]

/-- A key stays busy as long as elements wait for it. -/
theorem isBusy_complete [DecidableEq κ] :
    (l.complete key).2.isBusy k = if k = key then !(l.queue k).isEmpty else l.isBusy k := by
  rw [complete]
  by_cases hk : k = key
  · subst hk
    split
    · next hget => simp [queue, isBusy, SortedMap.contains, hget]
    · next hget => simp [queue, isBusy, SortedMap.contains, hget]
    · next hget => simp [queue, isBusy, SortedMap.contains, hget]
  · split
    · simp [isBusy, SortedMap.contains, SortedMap.get?_insert, hk]
    · simp [isBusy, SortedMap.contains, SortedMap.get?_erase, hk]
    · simp [hk]

/-! ### Elements on the lane of their key -/

variable [DecidableEq κ] {keyOf : ε → κ} {flight rest : List ε}

omit [KeyOrder κ] [DecidableEq κ] in
/-- **Elements wait for their own key.** -/
def Keyed (keyOf : ε → κ) (l : Lanes κ ε) : Prop := ∀ key, ∀ e ∈ l.queue key, keyOf e = key

omit [KeyOrder κ] [DecidableEq κ] in
theorem keyed_empty (keyOf : ε → κ) : (empty : Lanes κ ε).Keyed keyOf :=
  fun _ _ he => absurd he List.not_mem_nil

theorem Keyed.offer (h : l.Keyed keyOf) (e : ε) : (l.offer (keyOf e) e).2.Keyed keyOf := by
  intro key x hx
  rw [queue_offer] at hx
  split at hx
  · next hkey =>
    rcases List.mem_append.mp hx with hx | hx
    · exact h key x hx
    · rw [List.mem_singleton.mp hx]
      exact hkey.1.symm
  · exact h key x hx

theorem Keyed.complete (h : l.Keyed keyOf) (k : κ) : (l.complete k).2.Keyed keyOf := by
  intro key x hx
  rw [queue_complete] at hx
  split at hx
  · exact h key x (List.mem_of_mem_tail hx)
  · exact h key x hx

omit [KeyOrder κ] [DecidableEq κ] in
/-- What a completion releases is of its key. -/
theorem Keyed.keyOf_head (h : l.Keyed keyOf) (hx : x ∈ (l.queue key).head?.toList) :
    keyOf x = key :=
  h key x (List.mem_of_head? (Option.mem_toList.mp hx))

/-- **An offer loses nothing**: of every key, what is released and what waits then is what waited
before, and the element. -/
theorem filter_offer (l : Lanes κ ε) (keyOf : ε → κ) (e : ε) (key : κ) :
    (l.offer (keyOf e) e).1.toList.filter (keyOf · = key) ++ (l.offer (keyOf e) e).2.queue key =
      l.queue key ++ [e].filter (keyOf · = key) := by
  rw [offer_fst, queue_offer]
  by_cases hkey : key = keyOf e
  · subst hkey
    cases hbusy : l.isBusy (keyOf e) with
    | true => simp
    | false => simp [queue_eq_nil_of_idle hbusy]
  · have hne : ¬keyOf e = key := fun heq => hkey heq.symm
    cases hbusy : l.isBusy (keyOf e) <;> simp [hkey, hne]

/-- **A completion loses nothing**: of every key, what is released and what waits then is what
waited before. -/
theorem Keyed.filter_complete (h : l.Keyed keyOf) (k key : κ) :
    (l.complete k).1.element?.toList.filter (keyOf · = key) ++ (l.complete k).2.queue key =
      l.queue key := by
  rw [element?_complete, queue_complete]
  by_cases hkey : key = k
  · subst hkey
    cases hqueue : l.queue key with
    | nil => simp
    | cons x more =>
      have hx := h key x (hqueue ▸ List.mem_cons_self)
      simp [hx]
  · have hnone : (l.queue k).head?.toList.filter (keyOf · = key) = [] := by
      refine List.filter_eq_nil_iff.mpr fun x hx => ?_
      simpa [h.keyOf_head hx] using fun heq => hkey heq.symm
    simp [hkey, hnone]

/-- **An offer releases an element if that makes its key busy.** -/
theorem countP_offer (l : Lanes κ ε) (keyOf : ε → κ) (e : ε) (key : κ) :
    (l.offer (keyOf e) e).1.toList.countP (keyOf · = key) + (if l.isBusy key then 1 else 0) =
      if (l.offer (keyOf e) e).2.isBusy key then 1 else 0 := by
  rw [offer_fst, isBusy_offer]
  by_cases hkey : key = keyOf e
  · subst hkey
    cases hbusy : l.isBusy (keyOf e) <;> simp
  · have hne : ¬keyOf e = key := fun heq => hkey heq.symm
    cases hbusy : l.isBusy (keyOf e) <;> simp [hkey, hne]

/-- **A completion that finds its key busy ends a turn**, and an element is released if the key
stays busy. -/
theorem Keyed.countP_complete (h : l.Keyed keyOf) (k key : κ) :
    (l.complete k).1.element?.toList.countP (keyOf · = key) + (if l.isBusy key then 1 else 0) =
      (if (l.complete k).2.isBusy key then 1 else 0) +
        if k = key ∧ l.isBusy key then 1 else 0 := by
  rw [element?_complete, isBusy_complete]
  by_cases hkey : key = k
  · subst hkey
    cases hbusy : l.isBusy key with
    | false => simp [queue_eq_nil_of_idle hbusy]
    | true =>
      cases hqueue : l.queue key with
      | nil => simp
      | cons x more =>
        have hx := h key x (hqueue ▸ List.mem_cons_self)
        simp [hx]
  · have hnone : (l.queue k).head?.toList.countP (keyOf · = key) = 0 := by
      refine List.countP_eq_zero.mpr fun x hx => ?_
      simpa [h.keyOf_head hx] using fun heq => hkey heq.symm
    have hne : ¬k = key := fun heq => hkey heq.symm
    simp [hkey, hne, hnone]

/-! ### Elements in flight -/

omit [KeyOrder κ] in
/-- **Lanes carry elements**: of each busy key one is in flight, and of an idle key none, and
elements wait for their own key. -/
structure Carries (keyOf : ε → κ) (l : Lanes κ ε) (flight : List ε) : Prop where
  /-- Elements wait for their own key. -/
  keyed : l.Keyed keyOf
  /-- One of each busy key. -/
  countP_eq : ∀ key, flight.countP (keyOf · = key) = if l.isBusy key then 1 else 0

omit [KeyOrder κ] in
theorem carries_empty (keyOf : ε → κ) : (empty : Lanes κ ε).Carries keyOf [] :=
  ⟨keyed_empty keyOf, fun _ => rfl⟩

omit [KeyOrder κ] in
theorem Carries.countP_le (h : l.Carries keyOf flight) (key : κ) :
    flight.countP (keyOf · = key) ≤ 1 := by
  rw [h.countP_eq]
  split <;> omega

omit [KeyOrder κ] in
/-- Which is in flight matters, and not in what order. -/
theorem Carries.perm (h : l.Carries keyOf flight) (hperm : flight.Perm rest) :
    l.Carries keyOf rest :=
  ⟨h.keyed, fun key => (hperm.countP_eq _).symm.trans (h.countP_eq key)⟩

/-- **Nothing in flight, nothing waiting.** -/
theorem Carries.isIdle (h : l.Carries keyOf []) : l.isIdle = true := by
  refine isIdle_iff.mpr fun key => ?_
  have hzero := h.countP_eq key
  by_contra hbusy
  rw [Bool.not_eq_false] at hbusy
  simp [hbusy] at hzero

omit [DecidableEq κ] in
theorem queue_eq_nil_of_isIdle (h : l.isIdle = true) (key : κ) : l.queue key = [] :=
  queue_eq_nil_of_idle (isIdle_iff.mp h key)

/-- **An offer puts the element in flight or to the end of its lane.** -/
theorem Carries.offer (h : l.Carries keyOf flight) (e : ε) :
    (l.offer (keyOf e) e).2.Carries keyOf (flight ++ (l.offer (keyOf e) e).1.toList) := by
  refine ⟨h.keyed.offer e, fun key => ?_⟩
  rw [List.countP_append, h.countP_eq, Nat.add_comm]
  exact countP_offer l keyOf e key

/-- **A completion takes the element out of flight**, and puts the next one of its key there. -/
theorem Carries.complete (h : l.Carries keyOf (e :: rest)) :
    (l.complete (keyOf e)).2.Carries keyOf
      (rest ++ (l.complete (keyOf e)).1.element?.toList) := by
  refine ⟨h.keyed.complete (keyOf e), fun key => ?_⟩
  have hcount := h.countP_eq key
  have hcomplete := h.keyed.countP_complete (keyOf e) key
  rw [List.countP_cons] at hcount
  rw [List.countP_append]
  by_cases hkey : keyOf e = key
  · -- the key is busy with the completed element
    cases hbusy : l.isBusy key with
    | false => simp [hkey, hbusy] at hcount
    | true =>
      simp only [hkey, hbusy, decide_true, if_true, and_self] at hcount hcomplete ⊢
      omega
  · simp only [hkey, decide_false, Bool.false_eq_true, if_false, false_and] at hcount hcomplete
    omega

end Lanes

namespace Lanes

/-! ### Who waits -/

variable {κ ε : Type} [LT κ] [DecidableLT κ] [KeyOrder κ] {l : Lanes κ ε} {key : κ} {e x : ε}

omit [KeyOrder κ] in
/-- An element that waits on a lane. -/
def Waits (l : Lanes κ ε) (e : ε) : Prop :=
  ∃ key queue, l.queues.get? key = some queue ∧ e ∈ queue

omit [KeyOrder κ] in
theorem waits_iff : l.Waits x ↔ ∃ key, x ∈ l.queue key :=
  exists_congr fun _ => mem_queue_iff.symm

theorem eq_of_offer (h : (l.offer key e).1 = some x) : x = e := by
  rw [offer_fst] at h
  split at h
  · exact nomatch h
  · exact (Option.some.inj h).symm

/-- **An offer adds one element at most.** -/
theorem Waits.of_offer [DecidableEq κ] (h : (l.offer key e).2.Waits x) : l.Waits x ∨ x = e := by
  obtain ⟨other, hx⟩ := waits_iff.mp h
  rw [queue_offer] at hx
  split at hx
  · rcases List.mem_append.mp hx with hx | hx
    · exact Or.inl (waits_iff.mpr ⟨other, hx⟩)
    · exact Or.inr (List.mem_singleton.mp hx)
  · exact Or.inl (waits_iff.mpr ⟨other, hx⟩)

/-- **What is released has waited.** -/
theorem waits_of_complete (h : (l.complete key).1.element? = some x) : l.Waits x := by
  rw [element?_complete] at h
  exact waits_iff.mpr ⟨key, List.mem_of_head? h⟩

/-- **A completion adds nothing.** -/
theorem Waits.of_complete [DecidableEq κ] (h : (l.complete key).2.Waits x) : l.Waits x := by
  obtain ⟨other, hx⟩ := waits_iff.mp h
  rw [queue_complete] at hx
  split at hx
  · exact waits_iff.mpr ⟨other, List.mem_of_mem_tail hx⟩
  · exact waits_iff.mpr ⟨other, hx⟩

end Lanes

end EventJournal
