import EventJournal.Pipeline.Broadcast
import Mathlib.Data.List.Perm.Subperm
import Mathlib.Data.List.Range

/-!
# What the receivers of a broadcast get

A broadcast is used in any order (`EventJournal.Broadcast.Use`): receivers subscribe, values are
raised, the receivers are counted, and each of them takes values out, closes, and is dropped. What
becomes of a receiver is told by the history alone, and by no more of it than its own uses and the
values that were raised.

| a receiver | is told by | after |
|---|---|---|
| is open, closed, or dropped | its own uses | `EventJournal.Broadcast.statusOf` |
| was to get | the values raised while it was open | `EventJournal.Broadcast.raisedFor` |
| has got | the replies to it | `EventJournal.Broadcast.receivedBy` |

The list of those that values are sent to is put in order late, and by two different uses. That
nobody notices is one fact about every state that is reached
(`EventJournal.Broadcast.Tidy.takers_eq`): those on the list that still take values are the open
receivers, each once and in their order. So every use depends on the receivers alone, and the list
can be forgotten. That no receiver misses a value (`EventJournal.Broadcast.MissesNothing`) is then
kept by each use.
-/

namespace EventJournal

namespace Broadcast

variable {ε : Type}

/-! ### Uses -/

/-- **A use of a broadcast.** -/
inductive Use (ε : Type)
  /-- A receiver subscribes. -/
  | subscribe
  /-- A value is raised. -/
  | raise (value : ε)
  /-- The receivers are counted. -/
  | count
  /-- A receiver takes a value out. -/
  | receive (i : Nat)
  /-- A receiver closes. -/
  | close (i : Nat)
  /-- A receiver is dropped. -/
  | drop (i : Nat)

/-- Whether the receivers are counted. -/
def Use.isCount : Use ε → Bool
  | count => true
  | _ => false

/-- **What is replied to a use.** -/
inductive Reply (ε : Type)
  /-- The number of the new receiver. -/
  | receiver (i : Nat)
  /-- How many receivers there are, or have taken the value. -/
  | number (n : Nat)
  /-- The value that was taken out, if there was one, unless the receiver is gone. -/
  | value (taken : Option (Option ε))
  /-- Whether there was a receiver to close or to drop. -/
  | withdrawn (done : Bool)
  deriving DecidableEq

/-- The value that a reply brings. -/
def Reply.value? : Reply ε → Option ε
  | value (some taken) => taken
  | _ => none

/-- What is replied to a use, and the broadcast after it. -/
def act (b : Broadcast ε) : Use ε → Reply ε × Broadcast ε
  | .subscribe => b.subscribe.map .receiver id
  | .raise value => (b.raise value).map .number id
  | .count => b.count.map .number id
  | .receive i => (b.receive i).map .value id
  | .close i => (b.close i).map .withdrawn id
  | .drop i => (b.drop i).map .withdrawn id

/-- The broadcast after some uses, the latest of which stands first. -/
def after : (history : List (Use ε)) → Broadcast ε
  | [] => empty
  | use :: earlier => ((after earlier).act use).2

/-- The uses of a history, each with what was replied to it. -/
def transcript : (history : List (Use ε)) → List (Use ε × Reply ε)
  | [] => []
  | use :: earlier => (use, ((after earlier).act use).1) :: transcript earlier

/-! ### What a history tells of a receiver -/

/-- How many receivers have subscribed. -/
def subscriptions : (history : List (Use ε)) → Nat
  | [] => 0
  | .subscribe :: earlier => subscriptions earlier + 1
  | .raise _ :: earlier | .count :: earlier | .receive _ :: earlier | .close _ :: earlier
  | .drop _ :: earlier => subscriptions earlier

/-- What a receiver still does, `none` if it has not subscribed. -/
def statusOf (i : Nat) : (history : List (Use ε)) → Option Receiver.Status
  | [] => none
  | .subscribe :: earlier =>
    if i = subscriptions earlier then some .open else statusOf i earlier
  | .close j :: earlier =>
    if i = j then (statusOf i earlier).map fun s => if s = .dropped then .dropped else .closed
    else statusOf i earlier
  | .drop j :: earlier =>
    if i = j then (statusOf i earlier).map fun _ => .dropped else statusOf i earlier
  | .raise _ :: earlier | .count :: earlier | .receive _ :: earlier => statusOf i earlier

/-- The values that were raised after a receiver had subscribed and before it closed or was
dropped, in the order in which they were raised. -/
def raisedFor (i : Nat) : (history : List (Use ε)) → List ε
  | [] => []
  | .raise value :: earlier =>
    raisedFor i earlier ++ if statusOf i earlier = some .open then [value] else []
  | .subscribe :: earlier | .count :: earlier | .receive _ :: earlier | .close _ :: earlier
  | .drop _ :: earlier => raisedFor i earlier

/-- The values that a receiver has taken out, in the order in which it did. -/
def receivedBy (i : Nat) : (history : List (Use ε)) → List ε
  | [] => []
  | .receive j :: earlier =>
    receivedBy i earlier ++
      if i = j then ((after earlier).act (.receive j)).1.value?.toList else []
  | .subscribe :: earlier | .raise _ :: earlier | .count :: earlier | .close _ :: earlier
  | .drop _ :: earlier => receivedBy i earlier

/-- The receivers that are open, in the order of their subscription. -/
def openOnes (history : List (Use ε)) : List Nat :=
  (List.range (subscriptions history)).filter fun i => statusOf i history = some .open

/-! ### The list that values are sent to -/

/-- **A broadcast that has lost no receiver**: all that take values are on the list, in their
order and each once. -/
structure Tidy (b : Broadcast ε) : Prop where
  /-- The list is a part of the receivers, in their order. -/
  attached_sublist : b.attached.Sublist (List.range b.receivers.length)
  /-- Whoever takes values is on it. -/
  mem_attached : ∀ i, b.takes i = true → i ∈ b.attached

variable {b : Broadcast ε} {i : Nat}

theorem takes_iff : b.takes i = true ↔ ∃ r, b.receivers[i]? = some r ∧ r.status = .open := by
  rw [takes]
  cases b.receivers[i]? with
  | none => simp
  | some r => simp

theorem lt_of_takes (h : b.takes i = true) : i < b.receivers.length := by
  obtain ⟨r, hr, -⟩ := takes_iff.mp h
  exact (List.getElem?_eq_some_iff.mp hr).1

/-- A part of a list that has all elements of a kind has them as often. -/
theorem filter_eq_of_sublist {α : Type} {p : α → Bool} {l l' : List α} (h : l.Sublist l')
    (hnodup : l'.Nodup) (hmem : ∀ x ∈ l', p x = true → x ∈ l) : l.filter p = l'.filter p := by
  have hsub : (l.filter p).Sublist (l'.filter p) := h.filter p
  refine hsub.eq_of_length_le (List.Subperm.length_le ?_)
  refine List.subperm_of_subset (hnodup.filter p) fun x hx => ?_
  obtain ⟨hx, hp⟩ := List.mem_filter.mp hx
  exact List.mem_filter.mpr ⟨hmem x hx hp, hp⟩

/-- **Those on the list that take values are all that do.** -/
theorem Tidy.takers_eq (h : b.Tidy) :
    b.attached.filter b.takes = (List.range b.receivers.length).filter b.takes :=
  filter_eq_of_sublist h.attached_sublist List.nodup_range fun i _ => h.mem_attached i

/-- A list that keeps those who take values is as good. -/
theorem Tidy.of_filter (h : b.Tidy) {b' : Broadcast ε}
    (hattached : b'.attached = b.attached.filter b.takes)
    (hlength : b'.receivers.length = b.receivers.length)
    (htakes : ∀ i, b'.takes i = true → b.takes i = true) : b'.Tidy where
  attached_sublist := by
    rw [hattached, hlength]
    exact List.filter_sublist.trans h.attached_sublist
  mem_attached i hi := by
    rw [hattached]
    exact List.mem_filter.mpr ⟨h.mem_attached i (htakes i hi), htakes i hi⟩

/-- The list is left as it is, and no receiver begins to take values. -/
theorem Tidy.of_attached (h : b.Tidy) {b' : Broadcast ε} (hattached : b'.attached = b.attached)
    (hlength : b'.receivers.length = b.receivers.length)
    (htakes : ∀ i, b'.takes i = true → b.takes i = true) : b'.Tidy where
  attached_sublist := by
    rw [hattached, hlength]
    exact h.attached_sublist
  mem_attached i hi := hattached ▸ h.mem_attached i (htakes i hi)

/-- A receiver that is changed and is not made open again. -/
theorem takes_of_set {r r' : Receiver ε} (hi : b.receivers[i]? = some r)
    (hopen : r'.status = .open → r.status = .open) {j : Nat}
    (hj : takes { b with receivers := b.receivers.set i r' } j = true) : b.takes j = true := by
  obtain ⟨w, hw, hstatus⟩ := takes_iff.mp hj
  have hlt := (List.getElem?_eq_some_iff.mp hi).1
  by_cases hij : i = j
  · subst hij
    obtain rfl := Option.some.inj ((List.getElem?_set_self hlt).symm.trans hw)
    exact takes_iff.mpr ⟨r, hi, hopen hstatus⟩
  · exact takes_iff.mpr ⟨w, (List.getElem?_set_ne hij).symm.trans hw, hstatus⟩

theorem Tidy.subscribe (h : b.Tidy) : b.subscribe.2.Tidy where
  attached_sublist := by
    rw [Broadcast.subscribe]
    dsimp only
    rw [List.length_append, List.length_singleton, List.range_succ]
    exact h.attached_sublist.append (List.Sublist.refl _)
  mem_attached i hi := by
    obtain ⟨r, hr, hstatus⟩ := takes_iff.mp hi
    rw [Broadcast.subscribe] at hr ⊢
    rcases Nat.lt_or_ge i b.receivers.length with hlt | hge
    · rw [List.getElem?_append_left hlt] at hr
      exact List.mem_append_left _ (h.mem_attached i (takes_iff.mpr ⟨r, hr, hstatus⟩))
    · rw [List.getElem?_append_right hge] at hr
      have hzero := (List.getElem?_eq_some_iff.mp hr).1
      rw [List.length_singleton] at hzero
      exact List.mem_append_right _ (List.mem_singleton.mpr (by omega))

theorem Tidy.withdraw (h : b.Tidy) {status : Receiver.Status} (hstatus : status ≠ .open) :
    (b.withdraw i status).2.Tidy := by
  rw [Broadcast.withdraw]
  split
  · next r hr =>
    split
    · exact h
    · exact h.of_attached rfl List.length_set fun j =>
        takes_of_set hr fun hopen => absurd hopen hstatus
  · exact h

theorem Tidy.receive (h : b.Tidy) : (b.receive i).2.Tidy := by
  rw [Broadcast.receive]
  split
  · next r hr =>
    split
    · exact h
    · have hopen : ({ r with waiting := r.waiting.tail } : Receiver ε).status = .open →
          r.status = .open := id
      exact h.of_attached rfl List.length_set fun j => takes_of_set hr hopen
  · exact h

/-- **No use loses a receiver.** -/
theorem Tidy.act (h : b.Tidy) (use : Use ε) : (b.act use).2.Tidy := by
  cases use with
  | subscribe => exact h.subscribe
  | raise value =>
    exact h.of_filter rfl List.length_mapIdx fun i hi => takes_send b [value] i ▸ hi
  | count => exact h.of_filter rfl rfl fun i hi => hi
  | receive i => exact h.receive
  | close i => exact h.withdraw (by decide)
  | drop i => exact h.withdraw (by decide)

theorem tidy_after (history : List (Use ε)) : (after history).Tidy := by
  induction history with
  | nil => exact ⟨List.Sublist.refl _, fun i hi => absurd (lt_of_takes hi) (Nat.not_lt_zero i)⟩
  | cons use earlier ih => exact ih.act use

/-! ### What a use does to a receiver -/

theorem Tidy.mem_takers_iff (h : b.Tidy) : i ∈ b.attached.filter b.takes ↔ b.takes i = true := by
  rw [List.mem_filter]
  exact and_iff_right_of_imp (h.mem_attached i)

/-- **A value goes to every open receiver** and to no other. -/
theorem Tidy.getElem?_raise (h : b.Tidy) (value : ε) (i : Nat) :
    (b.raise value).2.receivers[i]? =
      (b.receivers[i]?).map fun r =>
        if r.status = .open then { r with waiting := r.waiting ++ [value] } else r := by
  rw [raise, send, List.getElem?_mapIdx]
  cases hr : b.receivers[i]? with
  | none => rfl
  | some r =>
    have htakes : b.takes i = true ↔ r.status = .open := by simp [takes, hr]
    simp only [Option.map_some, List.contains_iff_mem, h.mem_takers_iff, htakes]

theorem getElem?_withdraw (b : Broadcast ε) (j : Nat) (status : Receiver.Status) (i : Nat) :
    (b.withdraw j status).2.receivers[i]? =
      if i = j then
        (b.receivers[i]?).map fun r =>
          if r.status = .dropped then r
          else ⟨if status = .dropped then [] else r.waiting, status⟩
      else b.receivers[i]? := by
  by_cases hij : i = j
  · subst hij
    rw [withdraw, if_pos rfl]
    cases hr : b.receivers[i]? with
    | none => exact hr
    | some r =>
      have hlt := (List.getElem?_eq_some_iff.mp hr).1
      dsimp only
      rw [Option.map_some]
      split
      · exact hr
      · exact List.getElem?_set_self hlt
  · rw [withdraw, if_neg hij]
    split
    · split
      · rfl
      · exact List.getElem?_set_ne (Ne.symm hij)
    · rfl

theorem getElem?_receive (b : Broadcast ε) (j i : Nat) :
    (b.receive j).2.receivers[i]? =
      if i = j then
        (b.receivers[i]?).map fun r =>
          if r.status = .dropped then r else { r with waiting := r.waiting.tail }
      else b.receivers[i]? := by
  by_cases hij : i = j
  · subst hij
    rw [receive, if_pos rfl]
    cases hr : b.receivers[i]? with
    | none => exact hr
    | some r =>
      have hlt := (List.getElem?_eq_some_iff.mp hr).1
      dsimp only
      rw [Option.map_some]
      split
      · exact hr
      · exact List.getElem?_set_self hlt
  · rw [receive, if_neg hij]
    split
    · split
      · rfl
      · exact List.getElem?_set_ne (Ne.symm hij)
    · rfl

theorem act_subscribe_fst (b : Broadcast ε) :
    (b.act .subscribe).1 = .receiver b.receivers.length := rfl

theorem act_raise_fst (b : Broadcast ε) (value : ε) :
    (b.act (.raise value)).1 = .number (b.attached.filter b.takes).length := rfl

theorem act_count_fst (b : Broadcast ε) :
    (b.act .count).1 = .number (b.attached.filter b.takes).length := rfl

theorem act_receive_fst (b : Broadcast ε) (i : Nat) :
    (b.act (.receive i)).1 = .value (b.receive i).1 := rfl

/-- What a receiver is given when it asks. -/
theorem receive_fst (b : Broadcast ε) (i : Nat) :
    (b.receive i).1 = (b.waiting? i).map (·.head?) := by
  rw [receive, waiting?]
  split
  · split <;> rfl
  · rfl

/-! ### What becomes of a receiver -/

/-- The receivers are those that have subscribed. -/
theorem length_after (history : List (Use ε)) :
    (after history).receivers.length = subscriptions history := by
  induction history with
  | nil => rfl
  | cons use earlier ih =>
    have hwithdraw : ∀ (j : Nat) (status : Receiver.Status),
        ((after earlier).withdraw j status).2.receivers.length = subscriptions earlier := by
      intro j status
      rw [withdraw]
      split
      · split
        · exact ih
        · exact List.length_set.trans ih
      · exact ih
    cases use with
    | subscribe => exact (List.length_append).trans (congrArg (· + 1) ih)
    | raise value => exact List.length_mapIdx.trans ih
    | count => exact ih
    | receive j =>
      simp only [after, act, Prod.map_snd, id_eq, receive]
      split
      · split
        · exact ih
        · exact List.length_set.trans ih
      · exact ih
    | close j => exact hwithdraw j .closed
    | drop j => exact hwithdraw j .dropped

/-- A new receiver stands behind the others. -/
theorem getElem?_subscribe (earlier : List (Use ε)) (i : Nat) :
    (after (.subscribe :: earlier)).receivers[i]? =
      if i = subscriptions earlier then some ⟨[], .open⟩ else (after earlier).receivers[i]? := by
  change ((after earlier).receivers ++ [⟨[], .open⟩])[i]? = _
  rw [← length_after earlier]
  rcases Nat.lt_trichotomy i (after earlier).receivers.length with hlt | rfl | hgt
  · rw [List.getElem?_append_left hlt, if_neg (Nat.ne_of_lt hlt)]
  · rw [List.getElem?_append_right le_rfl, Nat.sub_self, if_pos rfl]
    rfl
  · rw [if_neg (Nat.ne_of_gt hgt), List.getElem?_eq_none (Nat.le_of_lt hgt)]
    exact List.getElem?_eq_none (by simpa using Nat.succ_le_of_lt hgt)

/-- **What a receiver still does** is told by its own uses. -/
theorem status_after (history : List (Use ε)) (i : Nat) :
    ((after history).receivers[i]?).map (·.status) = statusOf i history := by
  induction history with
  | nil => rfl
  | cons use earlier ih =>
    have hwithdraw : ∀ (j : Nat) (status : Receiver.Status),
        (((after earlier).withdraw j status).2.receivers[i]?).map (·.status) =
          if i = j then
            (statusOf i earlier).map fun s => if s = .dropped then .dropped else status
          else statusOf i earlier := by
      intro j status
      rw [getElem?_withdraw, ← ih]
      split
      · rw [Option.map_map, Option.map_map]
        refine Option.map_congr fun r _ => ?_
        simp only [Function.comp]
        split
        · next hgone => exact hgone
        · rfl
      · rfl
    cases use with
    | subscribe =>
      rw [getElem?_subscribe, statusOf, ← ih]
      split <;> rfl
    | raise value =>
      refine Eq.trans (congrArg _ ((tidy_after earlier).getElem?_raise value i)) ?_
      rw [Option.map_map, statusOf, ← ih]
      refine Option.map_congr fun r _ => ?_
      simp only [Function.comp]
      split <;> rfl
    | count => exact ih
    | receive j =>
      refine Eq.trans (congrArg _ (getElem?_receive (after earlier) j i)) ?_
      rw [statusOf, ← ih]
      split
      · rw [Option.map_map]
        refine Option.map_congr fun r _ => ?_
        simp only [Function.comp]
        split <;> rfl
      · rfl
    | close j => exact hwithdraw j .closed
    | drop j =>
      refine (hwithdraw j .dropped).trans ?_
      simp only [ite_self, statusOf]

theorem waiting?_eq (b : Broadcast ε) (i : Nat) :
    b.waiting? i =
      (b.receivers[i]?).bind fun r => if r.status = .dropped then none else some r.waiting := by
  rw [waiting?]
  cases b.receivers[i]? <;> rfl

/-- The value that is replied to a receiver is the first of those that wait at it. -/
theorem value?_receive (b : Broadcast ε) (i : Nat) :
    (b.act (.receive i)).1.value? = (b.waiting? i).bind (·.head?) := by
  rw [act_receive_fst, receive_fst]
  cases b.waiting? i with
  | none => rfl
  | some waiting => cases waiting <;> rfl

/-- Before it subscribes, a receiver is to get nothing and gets nothing. -/
theorem eq_nil_of_statusOf {history : List (Use ε)} {i : Nat} (h : statusOf i history = none) :
    receivedBy i history = [] ∧ raisedFor i history = [] := by
  induction history with
  | nil => exact ⟨rfl, rfl⟩
  | cons use earlier ih =>
    cases use with
    | subscribe =>
      rw [statusOf] at h
      split at h
      · cases h
      · exact ih h
    | raise value =>
      have hnone : statusOf i earlier = none := h
      rw [receivedBy, raisedFor, (ih hnone).2, hnone]
      exact ⟨(ih hnone).1, rfl⟩
    | count => exact ih h
    | receive j =>
      have hnone : statusOf i earlier = none := h
      rw [receivedBy, raisedFor, (ih hnone).1]
      refine ⟨?_, (ih hnone).2⟩
      split
      · next hij =>
        subst hij
        rw [← status_after, Option.map_eq_none_iff] at hnone
        rw [value?_receive, waiting?_eq, hnone]
        rfl
      · rfl
    | close j | drop j =>
      rw [statusOf] at h
      split at h
      · exact ih (Option.map_eq_none_iff.mp h)
      · exact ih h

/-- **A receiver that has missed nothing**: what it has got and what waits for it is what it was to
get. -/
def MissesNothing (i : Nat) (history : List (Use ε)) : Prop :=
  ∀ r, (after history).receivers[i]? = some r → r.status ≠ .dropped →
    receivedBy i history ++ r.waiting = raisedFor i history

section MissesNothing

variable {earlier : List (Use ε)} {i : Nat} {r : Receiver ε} (h : MissesNothing i earlier)

include h

/-- Closing loses nothing that waits, and who is dropped is not asked. -/
theorem MissesNothing.withdraw {j : Nat} {status : Receiver.Status}
    (hr : ((after earlier).withdraw j status).2.receivers[i]? = some r)
    (hpresent : r.status ≠ .dropped) : receivedBy i earlier ++ r.waiting = raisedFor i earlier := by
  rw [getElem?_withdraw] at hr
  split at hr
  · obtain ⟨old, hold, rfl⟩ := Option.map_eq_some_iff.mp hr
    by_cases hgone : old.status = .dropped
    · rw [if_pos hgone] at hpresent
      exact absurd hgone hpresent
    · rw [if_neg hgone] at hpresent ⊢
      rw [if_neg hpresent]
      exact h old hold hgone
  · exact h r hr hpresent

theorem MissesNothing.subscribe : MissesNothing i (.subscribe :: earlier) := by
  intro r hr hpresent
  rw [getElem?_subscribe] at hr
  split at hr
  · next hnew =>
    have hnone : statusOf i earlier = none := by
      rw [← status_after, List.getElem?_eq_none (by rw [length_after, hnew]), Option.map_none]
    obtain ⟨hreceived, hraised⟩ := eq_nil_of_statusOf hnone
    cases hr
    rw [receivedBy, raisedFor, hreceived, hraised, List.nil_append]
  · exact h r hr hpresent

theorem MissesNothing.raise (value : ε) : MissesNothing i (.raise value :: earlier) := by
  intro r hr hpresent
  have hraise := ((tidy_after earlier).getElem?_raise value i).symm.trans hr
  obtain ⟨old, hold, rfl⟩ := Option.map_eq_some_iff.mp hraise
  have hstatus := status_after earlier i
  rw [hold, Option.map_some] at hstatus
  rw [receivedBy, raisedFor, ← hstatus]
  by_cases hopen : old.status = .open
  · have hequal := h old hold (by rw [hopen]; decide)
    rw [if_pos hopen, hopen, if_pos rfl, ← hequal, List.append_assoc]
  · rw [if_neg hopen] at hpresent ⊢
    rw [if_neg fun heq => hopen (Option.some.inj heq), List.append_nil]
    exact h old hold hpresent

theorem MissesNothing.receive (j : Nat) : MissesNothing i (.receive j :: earlier) := by
  intro r hr hpresent
  have hreceive := (getElem?_receive (after earlier) j i).symm.trans hr
  rw [receivedBy, raisedFor]
  split at hreceive
  · next hij =>
    subst hij
    obtain ⟨old, hold, rfl⟩ := Option.map_eq_some_iff.mp hreceive
    by_cases hgone : old.status = .dropped
    · rw [if_pos hgone] at hpresent
      exact absurd hgone hpresent
    · rw [if_pos rfl, if_neg hgone, value?_receive, waiting?_eq, hold, Option.bind_some,
        if_neg hgone, Option.bind_some, ← h old hold hgone, List.append_assoc]
      cases old.waiting <;> rfl
  · next hij =>
    rw [if_neg hij, List.append_nil]
    exact h r hreceive hpresent

end MissesNothing

/-- **No receiver misses anything**, whatever the uses. -/
theorem missesNothing (i : Nat) (history : List (Use ε)) : MissesNothing i history := by
  induction history with
  | nil => exact fun _ hr => nomatch hr
  | cons use earlier ih =>
    cases use with
    | subscribe => exact ih.subscribe
    | raise value => exact ih.raise value
    | count => exact ih
    | receive j => exact ih.receive j
    | close j => exact fun _ => ih.withdraw
    | drop j => exact fun _ => ih.withdraw

/-! ### Without the counts -/

/-- **The replies and the receivers depend on the receivers**, and on nothing else. -/
theorem act_congr {b b' : Broadcast ε} (h : b.Tidy) (h' : b'.Tidy)
    (heq : b.receivers = b'.receivers) (use : Use ε) :
    (b.act use).1 = (b'.act use).1 ∧ (b.act use).2.receivers = (b'.act use).2.receivers := by
  have htakes : b.takes = b'.takes := by
    funext i
    rw [takes, takes, heq]
  have htakers : (b.attached.filter b.takes) = b'.attached.filter b'.takes := by
    rw [h.takers_eq, h'.takers_eq, heq, htakes]
  have hwithdraw : ∀ (i : Nat) (status : Receiver.Status),
      (b.withdraw i status).1 = (b'.withdraw i status).1 ∧
        (b.withdraw i status).2.receivers = (b'.withdraw i status).2.receivers := by
    intro i status
    rw [withdraw, withdraw, heq]
    split
    · split
      · exact ⟨rfl, heq⟩
      · exact ⟨rfl, rfl⟩
    · exact ⟨rfl, heq⟩
  cases use with
  | subscribe => exact ⟨by rw [act_subscribe_fst, act_subscribe_fst, heq], congrArg (· ++ _) heq⟩
  | raise value =>
    refine ⟨by rw [act_raise_fst, act_raise_fst, htakers], ?_⟩
    change (b.send [value]).2.receivers = (b'.send [value]).2.receivers
    rw [send, send, htakers, heq]
  | count => exact ⟨by rw [act_count_fst, act_count_fst, htakers], heq⟩
  | receive i =>
    simp only [act, Prod.map_fst, Prod.map_snd, id_eq, receive, heq]
    split
    · split
      · exact ⟨rfl, heq⟩
      · exact ⟨rfl, rfl⟩
    · exact ⟨rfl, heq⟩
  | close i =>
    obtain ⟨hreply, hreceivers⟩ := hwithdraw i .closed
    exact ⟨congrArg Reply.withdrawn hreply, hreceivers⟩
  | drop i =>
    obtain ⟨hreply, hreceivers⟩ := hwithdraw i .dropped
    exact ⟨congrArg Reply.withdrawn hreply, hreceivers⟩

/-- **The counts leave no trace**, neither in the receivers nor in what is replied to other uses. -/
theorem without_counts (history : List (Use ε)) :
    (after (history.filter (!·.isCount))).receivers = (after history).receivers ∧
      transcript (history.filter (!·.isCount)) =
        (transcript history).filter (!·.1.isCount) := by
  induction history with
  | nil => exact ⟨rfl, rfl⟩
  | cons use earlier ih =>
    obtain ⟨hreceivers, htranscript⟩ := ih
    cases hcount : use.isCount with
    | true =>
      rw [List.filter_cons_of_neg (by simp [hcount]), transcript,
        List.filter_cons_of_neg (by simp [hcount])]
      refine ⟨?_, htranscript⟩
      cases use with
      | count => exact hreceivers
      | _ => cases hcount
    | false =>
      obtain ⟨hreply, hafter⟩ := act_congr (tidy_after _) (tidy_after earlier) hreceivers use
      rw [List.filter_cons_of_pos (by simp [hcount]), transcript, transcript,
        List.filter_cons_of_pos (by simp [hcount]), hreply, htranscript]
      exact ⟨hafter, rfl⟩

/-! ### The law -/

/-- Those who take values are the open receivers. -/
theorem takers_after (history : List (Use ε)) :
    (after history).attached.filter (after history).takes = openOnes history := by
  rw [(tidy_after history).takers_eq, length_after, openOnes]
  refine List.filter_congr fun i _ => ?_
  rw [Bool.eq_iff_iff, takes_iff, ← status_after, decide_eq_true_iff, Option.map_eq_some_iff]

/-- Values that are raised together are raised one after another. -/
theorem raiseAll_cons (b : Broadcast ε) (value : ε) {rest : List ε} (hrest : rest ≠ []) :
    b.raiseAll (value :: rest) = (b.raise value).2.raiseAll rest := by
  obtain ⟨next, more, rfl⟩ := List.exists_cons_of_ne_nil hrest
  change (b.send (value :: next :: more)).map some id =
    ((b.send [value]).2.send (next :: more)).map some id
  rw [send_send]
  rfl

/-- **Values that are raised together** leave what they leave if each is raised by itself. -/
theorem raiseAll_after (values : List ε) (history : List (Use ε)) :
    ((after history).raiseAll values).2 = after ((values.map .raise).reverse ++ history) := by
  induction values generalizing history with
  | nil => rfl
  | cons value rest ih =>
    rw [List.map_cons, List.reverse_cons, List.append_assoc]
    rcases eq_or_ne rest [] with rfl | hrest
    · rfl
    · rw [raiseAll_cons _ value hrest]
      exact ih (.raise value :: history)

/-- A receiver that is still there. -/
def IsPresent (i : Nat) (history : List (Use ε)) : Prop :=
  statusOf i history = some .open ∨ statusOf i history = some .closed

/-- What waits at a receiver that is still there. -/
theorem exists_waiting {history : List (Use ε)} {i : Nat} (h : IsPresent i history) :
    ∃ waiting, (after history).waiting? i = some waiting ∧
      receivedBy i history ++ waiting = raisedFor i history := by
  obtain ⟨r, hr, hpresent⟩ : ∃ r, (after history).receivers[i]? = some r ∧
      r.status ≠ .dropped := by
    rw [IsPresent, ← status_after, Option.map_eq_some_iff, Option.map_eq_some_iff] at h
    rcases h with ⟨r, hr, hstatus⟩ | ⟨r, hr, hstatus⟩ <;>
      exact ⟨r, hr, by rw [hstatus]; decide⟩
  refine ⟨r.waiting, ?_, missesNothing i history r hr hpresent⟩
  rw [waiting?_eq, hr, Option.bind_some, if_neg hpresent]

/-- **Nobody misses a value, and nobody notices who is counted.** After any uses of a broadcast, in
any order: what a receiver that was not dropped has got, with what waits for it, are the values
raised after it subscribed and before it closed, in the order in which they were raised; and the
next value that it takes out is the first that it has not got. A raise and a count are told the
number of the receivers that are open. Values that are raised together are raised one after another,
and the last reply is told. If the counts are left out, all other replies stay as they are, and so
they do if others are put in. -/
theorem lossless (history : List (Use ε)) :
    (∀ i, IsPresent i history →
      ∃ waiting, (after history).waiting? i = some waiting ∧
        receivedBy i history ++ waiting = raisedFor i history ∧
        ((after history).act (.receive i)).1 = .value (some waiting.head?)) ∧
      (∀ value, ((after history).act (.raise value)).1 = .number (openOnes history).length) ∧
      ((after history).act .count).1 = .number (openOnes history).length ∧
      (∀ values, ((after history).raiseAll values).2 =
          after ((values.map .raise).reverse ++ history) ∧
        (values ≠ [] →
          ((after history).raiseAll values).1 = some (openOnes history).length)) ∧
      transcript (history.filter (!·.isCount)) =
        (transcript history).filter (!·.1.isCount) := by
  refine ⟨fun i hi => ?_, fun value => ?_, ?_, fun values => ⟨raiseAll_after values history, ?_⟩,
    (without_counts history).2⟩
  · obtain ⟨waiting, hwaiting, heq⟩ := exists_waiting hi
    refine ⟨waiting, hwaiting, heq, ?_⟩
    rw [act_receive_fst, receive_fst, hwaiting, Option.map_some]
  · rw [act_raise_fst, takers_after]
  · rw [act_count_fst, takers_after]
  · intro hvalues
    obtain ⟨value, rest, rfl⟩ := List.exists_cons_of_ne_nil hvalues
    rw [← takers_after]
    rfl

/-- Uses by three receivers, the latest first: the first is dropped and the second closes between
raises, and they are counted in between. -/
def threeReceivers : List (Use Nat) :=
  [.receive 2, .raise 8, .count, .close 1, .raise 7, .drop 0, .receive 1, .subscribe, .raise 6,
    .count, .raise 5, .subscribe, .subscribe]

theorem lossless_three :
    IsPresent 1 threeReceivers ∧ receivedBy 1 threeReceivers = [5] ∧
      (∃ waiting, (after threeReceivers).waiting? 1 = some waiting ∧ [5] ++ waiting = [5, 6, 7]) ∧
      ((after threeReceivers).act (.raise 9)).1 = .number 1 ∧
      transcript (threeReceivers.filter (!·.isCount)) =
        (transcript threeReceivers).filter (!·.1.isCount) := by
  have hpresent : IsPresent 1 threeReceivers := Or.inr rfl
  obtain ⟨hreceivers, hraise, -, -, hcounts⟩ := lossless threeReceivers
  obtain ⟨waiting, hwaiting, heq, -⟩ := hreceivers 1 hpresent
  exact ⟨hpresent, rfl, ⟨waiting, hwaiting, heq⟩, hraise 9, hcounts⟩

end Broadcast

end EventJournal
