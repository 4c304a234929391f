import EventJournal.Pipeline.Bookmark
import EventJournal.Proofs.EventOrder
import EventJournal.Proofs.Interleaving
import EventJournal.Proofs.Pipeline.Chronicle
import EventJournal.Proofs.Store

/-!
# What a pipeline asks of the store

A pipeline looks for its latest row and the position of the event that the row names, reads
events after a position, claims the place of a new row and stores the row. These are its calls
(`EventJournal.Call.OfPipeline`); they leave the events and the heads of the streams alone, and
the only row that they store is the one that the pipeline has asked for
(`EventJournal.Store.Noted`).

| procedure | what is known while it is under way |
|---|---|
| the search for the first position | `EventJournal.Resuming.Sound` |
| a fetch | `EventJournal.Reading.Fetches` |

Neither depends on the store once its answer is there, so that others may go on writing.
-/

namespace EventJournal

/-! ### Reads -/

namespace Store

theorem mem_of_latestCheckpoint {s : Store} {pipeline : String} {row : Checkpoint}
    (h : s.latestCheckpoint pipeline = some row) : row ∈ s.checkpoints :=
  (List.mem_filter.mp (mem_of_lastGreatest h)).1

/-- **What is read after a position follows it**, in a store without gaps. -/
theorem Ordered.follow_after {s : Store} (h : s.Ordered) (position : Option Nat) (limit : Nat) :
    Follow (position.getD 0) (s.events.after position limit) ∧
      ∀ e ∈ s.events.after position limit, e ∈ s.events.toList := by
  have hafter : ∀ e ∈ s.events.toList,
      position.all (· < e.position) = true ↔ position.getD 0 < e.position := by
    intro e he
    cases position with
    | none => exact iff_of_true rfl (h.position_pos he)
    | some p => simp
  rw [h.coherent.after_eq]
  refine ⟨Follow.take ?_ limit, fun e he => (List.mem_filter.mp (List.mem_of_mem_take he)).1⟩
  refine @follow_of_forall_position _ (s.counter Sequence.events) _
    (h.coherent.pairwise_toList.filter _) fun q => ?_
  constructor
  · rintro ⟨e, he, rfl⟩
    obtain ⟨he, hlt⟩ := List.mem_filter.mp he
    exact ⟨(hafter e he).mp hlt, h.position_le he⟩
  · rintro ⟨hlt, hle⟩
    obtain ⟨e, he, rfl⟩ := (h.position_iff q).mpr ⟨Nat.zero_lt_of_lt hlt, hle⟩
    exact ⟨e, List.mem_filter.mpr ⟨he, (hafter e he).mpr hlt⟩, rfl⟩

/-! ### The calls of a pipeline -/

/-- **A store in which a pipeline has noted something**: rows of which `P` holds, if any. -/
structure Noted (P : Checkpoint → Prop) (s s' : Store) : Prop where
  /-- The positions still run without a gap. -/
  ordered : s.Ordered → s'.Ordered
  /-- The events. -/
  events : s'.events = s.events
  /-- The heads. -/
  heads : s'.heads = s.heads
  /-- The rows. -/
  rows : ∀ row ∈ s'.checkpoints, row ∈ s.checkpoints ∨ P row

theorem Noted.refl (P : Checkpoint → Prop) (s : Store) : s.Noted P s :=
  ⟨id, rfl, rfl, fun _ => Or.inl⟩

end Store

namespace Call

/-- **The calls of a pipeline** that stores only rows of which `P` holds. -/
def OfPipeline (P : Checkpoint → Prop) : Call → Prop
  | eventsOfStream .. | eventsAfter .. | positionOf _ | latestCheckpoint _ => True
  | findCounter name | insertCounter name _ | advanceCounter name _ _ => name = Sequence.checkpoints
  | insertCheckpoint row => P row
  | _ => False

/-- **A call that only looks.** -/
def Looks : Call → Prop
  | eventsOfStream .. | eventsAfter .. | positionOf _ | latestCheckpoint _ => True
  | _ => False

theorem Looks.store_eq {call : Call} (h : call.Looks) (s : Store) : (call.perform s).2 = s := by
  cases call with
  | eventsOfStream | eventsAfter | positionOf | latestCheckpoint => rfl
  | _ => exact absurd h id

theorem Looks.ofPipeline {call : Call} (h : call.Looks) (P : Checkpoint → Prop) :
    call.OfPipeline P := by
  cases call with
  | eventsOfStream | eventsAfter | positionOf | latestCheckpoint => trivial
  | _ => exact absurd h id

theorem OfPipeline.leavesEvents {P : Checkpoint → Prop} {call : Call} (h : call.OfPipeline P) :
    call.LeavesEvents := by
  have hne : Sequence.checkpoints ≠ Sequence.events := by decide
  cases call with
  | insertCounter name value => exact fun heq => hne (h.symm.trans heq)
  | advanceCounter name expected value => exact fun heq => hne (h.symm.trans heq)
  | commitEvents sequence events => exact absurd h id
  | _ => trivial

theorem OfPipeline.noted {P : Checkpoint → Prop} {call : Call} (h : call.OfPipeline P)
    (s : Store) : s.Noted P (call.perform s).2 := by
  refine ⟨perform_ordered h.leavesEvents, (perform_events h.leavesEvents s).1, ?_, ?_⟩
  · cases call with
    | insertCounter name value =>
      simp only [perform, Store.insertCounter]
      split <;> rfl
    | advanceCounter name expected value =>
      simp only [perform, Store.advanceCounter]
      split <;> rfl
    | insertCheckpoint row =>
      simp only [perform, Store.insertCheckpoint]
      split <;> rfl
    | eventsOfStream | eventsAfter | positionOf | latestCheckpoint | findCounter => rfl
    | _ => exact absurd h id
  · cases call with
    | insertCounter name value =>
      simp only [perform, Store.insertCounter]
      split <;> exact fun row => Or.inl
    | advanceCounter name expected value =>
      simp only [perform, Store.advanceCounter]
      split <;> exact fun row => Or.inl
    | insertCheckpoint row =>
      simp only [perform, Store.insertCheckpoint]
      split
      · exact fun row => Or.inl
      · intro other hother
        rcases List.mem_append.mp hother with hother | hother
        · exact Or.inl hother
        · exact Or.inr (List.mem_singleton.mp hother ▸ h)
    | eventsOfStream | eventsAfter | positionOf | latestCheckpoint | findCounter =>
      exact fun row => Or.inl
    | _ => exact absurd h id

end Call

/-- A procedure that only looks leaves the store as it was. -/
theorem Progress.Calls.store_eq {σ ρ : Type} {p : Progress σ ρ} (h : p.Calls Call.Looks)
    (fault : Option StoreError) (state : σ) (s : Store) : (p.step fault state s).2 = s := by
  rcases h.step_store fault state s with heq | ⟨call, hcall, heq⟩
  · exact heq
  · exact heq.trans (hcall.store_eq s)

theorem Progress.Calls.ofPipeline {σ ρ : Type} {p : Progress σ ρ} (h : p.Calls Call.Looks)
    (P : Checkpoint → Prop) : p.Calls (Call.OfPipeline P) :=
  fun call resume heq => (h call resume heq).ofPipeline P

theorem Progress.Calls.noted {σ ρ : Type} {P : Checkpoint → Prop} {p : Progress σ ρ}
    (h : p.Calls (Call.OfPipeline P)) (fault : Option StoreError) (state : σ) (s : Store) :
    s.Noted P (p.step fault state s).2 := by
  rcases h.step_store fault state s with heq | ⟨call, hcall, heq⟩
  · rw [heq]
    exact .refl P s
  · rw [heq]
    exact hcall.noted s

/-- **A store that bears a chronicle out**: the chronicle knows what is stored, and every row
names an event that may be noted. -/
structure Store.Attests (s : Store) (c : Chronicle) : Prop where
  /-- The positions run without a gap. -/
  ordered : s.Ordered
  /-- The stored events. -/
  stored_iff : ∀ e, c.stored e ↔ e ∈ s.events.toList
  /-- Only stored events are handled. -/
  stored_of_handled : ∀ e, c.handled e → c.stored e
  /-- The rows. -/
  reached : ∀ row ∈ s.checkpoints, c.Reached row.event

/-! ### Looking for the first position -/

namespace Resuming

section Finds

variable {R R' : Uuid → Prop} {P P' : Option Nat → Prop} {search : Resuming}

/-- **A search that finds what it should**: `R` holds of the event whose position is looked for,
and `P` of the position that is found. -/
def Finds (R : Uuid → Prop) (P : Option Nat → Prop) : Resuming → Prop
  | locating (.asking event) => R event
  | locating .unknown => P none
  | locating (.done (.ok position)) | done (.ok position) => P position
  | _ => True

theorem Finds.mono (h : search.Finds R P) (hR : ∀ event, R event → R' event)
    (hP : ∀ position, P position → P' position) : search.Finds R' P' := by
  unfold Finds at h ⊢
  split at h
  · exact hR _ h
  · exact hP _ h
  · exact hP _ h
  · exact hP _ h
  · trivial

/-- **The search goes on**, whatever fails, if what it is told is what it should find. -/
theorem Finds.step (h : search.Finds R P) {s : Store} {pipeline : String}
    (hrow : search = asking → ∀ row, s.latestCheckpoint pipeline = some row → R row.event)
    (hnone : search = asking → s.latestCheckpoint pipeline = none → P none)
    (hposition : ∀ event, R event → P (s.events.positionOf event)) (fault : Option StoreError) :
    ((search.next pipeline).step fault search s).1.Finds R P := by
  cases search with
  | asking =>
    cases fault with
    | some e => trivial
    | none =>
      simp only [next, Progress.step, Call.perform]
      cases hlatest : s.latestCheckpoint pipeline with
      | none => exact hnone rfl hlatest
      | some row => exact hrow rfl row hlatest
  | locating l =>
    cases l with
    | asking event =>
      cases fault with
      | some e => trivial
      | none =>
        have hfound := hposition event h
        simp only [next, Locating.next, Progress.within, Progress.step, Call.perform]
        cases hpos : s.events.positionOf event with
        | none =>
          rw [hpos] at hfound
          exact hfound
        | some p =>
          rw [hpos] at hfound
          exact hfound
    | unknown => exact h
    | done result => cases result <;> exact h
  | done result => exact h

theorem Finds.of_result? (h : search.Finds R P) {pipeline : String} {position : Option Nat}
    (hr : (search.next pipeline).result? = some (.ok position)) : P position := by
  cases search with
  | asking => exact nomatch hr
  | locating l =>
    cases l with
    | done result =>
      cases result with
      | error e => exact nomatch hr
      | ok found =>
        obtain rfl : found = position := by injection Option.some.inj hr
        exact h
    | _ => exact nomatch hr
  | done result =>
    obtain rfl : result = .ok position := Option.some.inj hr
    exact h

end Finds

/-- **What is known of the search for the first position**: the event whose position is looked
for may be noted, and up to the position that is found all has been handled. -/
def Sound (c : Chronicle) : Resuming → Prop
  | locating (.asking event) => c.Reached event
  | locating (.done (.ok position)) | done (.ok position) => c.HandledTo (position.getD 0)
  | _ => True

variable {c c' : Chronicle} {search : Resuming}

/-- An event that is not known stands for the beginning, before which there is nothing. -/
theorem sound_iff :
    search.Sound c ↔ search.Finds c.Reached fun position => c.HandledTo (position.getD 0) := by
  cases search with
  | asking => exact Iff.rfl
  | locating l =>
    cases l with
    | asking event => exact Iff.rfl
    | unknown => exact iff_of_true trivial c.handledTo_zero
    | done result => cases result <;> exact Iff.rfl
  | done result => cases result <;> exact Iff.rfl

theorem Sound.mono (h : search.Sound c) (hc : c.Grows c') : search.Sound c' :=
  sound_iff.mpr ((sound_iff.mp h).mono (fun _ hevent => hevent.mono hc) fun _ hto => hto.mono hc)

theorem next_looks (pipeline : String) (search : Resuming) :
    (search.next pipeline).Calls Call.Looks := by
  cases search with
  | asking =>
    have hcall : (Call.latestCheckpoint pipeline).Looks := trivial
    exact Progress.calls_asks hcall _
  | locating l =>
    refine (l.next_calls fun _ => trivial).within fun r _ => ?_
    cases r <;> exact Progress.calls_finished _
  | done result => exact Progress.calls_finished _

/-- **The search goes on soundly**, whatever fails. -/
theorem Sound.step (h : search.Sound c) {s : Store} (hs : s.Attests c) (pipeline : String)
    (fault : Option StoreError) : ((search.next pipeline).step fault search s).1.Sound c := by
  refine sound_iff.mpr ((sound_iff.mp h).step ?_ ?_ ?_ fault)
  · exact fun _ row hrow => hs.reached row (Store.mem_of_latestCheckpoint hrow)
  · exact fun _ _ => c.handledTo_zero
  · rintro event ⟨e, he, hid, hto⟩
    cases hpos : s.events.positionOf event with
    | none => exact c.handledTo_zero
    | some p =>
      obtain ⟨x, hx, hxid, rfl⟩ := hs.ordered.coherent.positionOf_eq_some_iff.mp hpos
      -- no other event has the identifier that the row names
      have hclash : x.Clash e := Or.inr (Or.inl (hxid.trans hid.symm))
      obtain rfl := hs.ordered.coherent.eq_of_clash hx ((hs.stored_iff e).mp he) hclash
      exact hto

theorem Sound.of_result? (h : search.Sound c) {pipeline : String} {position : Option Nat}
    (hr : (search.next pipeline).result? = some (.ok position)) :
    c.HandledTo (position.getD 0) := (sound_iff.mp h).of_result? hr

end Resuming

/-! ### Fetching -/

namespace Reading

/-- A read only looks. -/
theorem next_looks (reading : Reading) : reading.next.Calls Call.Looks :=
  reading.next_calls (fun _ _ _ => trivial) (fun _ _ => trivial) fun _ => trivial

section Brings

variable {Q : Option Nat → Nat → Prop} {P P' : List Event → Prop} {reading : Reading}

/-- **A fetch that brings what it should**: `Q` holds of the position and the limit that it asks
for, and `P` of the events that it brings. -/
def Brings (Q : Option Nat → Nat → Prop) (P : List Event → Prop) : Reading → Prop
  | after position limit => Q position limit
  | done (.ok events) => P events
  | done (.error _) => True
  | _ => False

theorem Brings.mono (h : reading.Brings Q P) (hP : ∀ events, P events → P' events) :
    reading.Brings Q P' := by
  unfold Brings at h ⊢
  split at h
  · exact h
  · exact hP _ h
  · trivial
  · exact absurd h id

/-- **The fetch goes on**, whatever fails, if what it is told is what it should bring. -/
theorem Brings.step (h : reading.Brings Q P) {s : Store}
    (hafter : ∀ position limit, Q position limit → P (s.events.after position limit))
    (fault : Option StoreError) : (reading.next.step fault reading s).1.Brings Q P := by
  cases reading with
  | after position limit =>
    simp only [next]
    split
    · exact h
    · cases fault with
      | some e => trivial
      | none => exact hafter position limit h
  | done result => exact h
  | _ => exact absurd h id

/-- The store is not asked for nothing. -/
theorem Brings.of_result? (h : reading.Brings Q P) (hnothing : ∀ position, Q position 0 → P [])
    {events : List Event} (hr : reading.next.result? = some (.ok events)) : P events := by
  cases reading with
  | after position limit =>
    simp only [next] at hr
    split at hr
    · next hlimit =>
      obtain rfl : [] = events := by injection Option.some.inj hr
      subst hlimit
      exact hnothing position h
    · cases hr
  | done result =>
    obtain rfl : result = .ok events := Option.some.inj hr
    exact h
  | _ => exact absurd h id

end Brings

/-- **What is known of a fetch after a position**: it asks for what comes after it, and what it
finds is stored at the positions that follow. -/
def Fetches (c : Chronicle) (position : Option Nat) : Reading → Prop
  | after p _ => p = position
  | done (.ok events) => Follow (position.getD 0) events ∧ ∀ e ∈ events, c.stored e
  | done (.error _) => True
  | _ => False

variable {c c' : Chronicle} {position : Option Nat} {reading : Reading}

theorem fetches_iff :
    reading.Fetches c position ↔
      reading.Brings (fun p _ => p = position) fun events =>
        Follow (position.getD 0) events ∧ ∀ e ∈ events, c.stored e := Iff.rfl

theorem Fetches.mono (h : reading.Fetches c position) (hc : c.Grows c') :
    reading.Fetches c' position :=
  fetches_iff.mpr ((fetches_iff.mp h).mono fun _ hevents =>
    ⟨hevents.1, fun e he => hc.stored e (hevents.2 e he)⟩)

/-- **The fetch goes on soundly**, whatever fails. -/
theorem Fetches.step (h : reading.Fetches c position) {s : Store} (hs : s.Attests c)
    (fault : Option StoreError) : (reading.next.step fault reading s).1.Fetches c position := by
  refine fetches_iff.mpr ((fetches_iff.mp h).step (fun p limit hp => ?_) fault)
  subst hp
  obtain ⟨hfollow, hmem⟩ := hs.ordered.follow_after p limit
  exact ⟨hfollow, fun e he => (hs.stored_iff e).mpr (hmem e he)⟩

theorem Fetches.of_result? (h : reading.Fetches c position) {events : List Event}
    (hr : reading.next.result? = some (.ok events)) :
    Follow (position.getD 0) events ∧ ∀ e ∈ events, c.stored e :=
  (fetches_iff.mp h).of_result? (fun _ _ => ⟨trivial, nofun⟩) hr

end Reading

/-! ### Noting progress -/

/-- **Noting progress stores no other row** than the one that is to be written. -/
theorem Marking.next_calls (b : Bookmark) (marking : Marking) :
    (marking.next b).Calls
      (Call.OfPipeline fun row => row.pipeline = b.pipeline ∧ row.event = b.event) := by
  cases marking with
  | ordering allocation =>
    refine Progress.Calls.within ?_ fun r _ => ?_
    · cases allocation with
      | reading =>
        have hcall : ∀ P, (Call.findCounter Sequence.checkpoints).OfPipeline P := fun _ => rfl
        exact Progress.calls_asks (hcall _) _
      | creating =>
        have hcall : ∀ P, (Call.insertCounter Sequence.checkpoints 0).OfPipeline P := fun _ => rfl
        exact Progress.calls_asks (hcall _) _
      | claiming n =>
        have hcall : ∀ P, (Call.advanceCounter Sequence.checkpoints n (n + 1)).OfPipeline P :=
          fun _ => rfl
        exact Progress.calls_asks (hcall _) _
      | retrying => exact nofun
      | done result => exact nofun
    · cases r <;> exact nofun
  | storing order =>
    refine Progress.calls_asks ?_ _
    exact ⟨rfl, rfl⟩
  | done result => exact nofun

end EventJournal
