import EventJournal.Proofs.Pipeline.Workshop

/-!
# What a demultiplexer releases, key by key

A demultiplexer with one listener is called in any order (`EventJournal.Demultiplexer.Call`):
elements are offered, and keys are completed, idle ones among them. What has come of a key is told
by two things, the elements of it that were offered and how many completions have found it busy
(`EventJournal.Demultiplexer.completions`).

| with `n` such completions | of a busy key | of an idle key |
|---|---|---|
| have been offered | more than `n` elements | `n` elements |
| were released | the first `n + 1` of them | all of them |
| wait | the others, in their order | none |

A key has a lane while it is busy, and an empty lane does not make it idle: one element is still
being handled. That is the `1` of the table, and the completions and the lane are counted against
the elements with it (`EventJournal.Demultiplexer.length_heardOn`).

The calls on other keys have no part in either of the two, and so none in what is released of the
key (`EventJournal.Demultiplexer.heardOn_filter`).
-/

namespace EventJournal

namespace Demultiplexer

variable {κ ε : Type}

/-! ### Calls -/

/-- **A call.** -/
inductive Call (κ ε : Type)
  /-- An element is offered. -/
  | offer (e : ε)
  /-- A key is completed. -/
  | complete (key : κ)

/-- The key that a call is on. -/
def Call.key (keyOf : ε → κ) : Call κ ε → κ
  | .offer e => keyOf e
  | .complete key => key

@[simp] theorem Call.key_offer (keyOf : ε → κ) (e : ε) :
    (Call.offer e : Call κ ε).key keyOf = keyOf e := rfl

/-- The elements that were offered in some calls, the latest of which stands first. -/
def offered : (history : List (Call κ ε)) → List ε
  | [] => []
  | .offer e :: earlier => offered earlier ++ [e]
  | .complete _ :: earlier => offered earlier

/-- The elements that the first listener has been told of. -/
def heard [LT κ] (d : Demultiplexer κ ε) : List ε := (d.released.waiting? 0).getD []

variable [LT κ] [DecidableLT κ] [KeyOrder κ]

/-- The demultiplexer with one listener after some calls, the latest of them standing first. -/
def after (keyOf : ε → κ) : (history : List (Call κ ε)) → Demultiplexer κ ε
  | [] => ⟨.empty, Broadcast.empty.subscribe.2⟩
  | .offer e :: earlier => (after keyOf earlier).offer (keyOf e) e
  | .complete key :: earlier => ((after keyOf earlier).complete key).2

variable [DecidableEq κ]

omit [LT κ] [DecidableLT κ] [KeyOrder κ] in
/-- The elements of a key that were offered, in the order of the offers. -/
def offeredOn (keyOf : ε → κ) (key : κ) (history : List (Call κ ε)) : List ε :=
  (offered history).filter (keyOf · = key)

/-- The elements of a key that were released, in the order in which they were. -/
def heardOn (keyOf : ε → κ) (key : κ) (history : List (Call κ ε)) : List ε :=
  (after keyOf history).heard.filter (keyOf · = key)

/-- How many completions of a key have found it busy. -/
def completions (keyOf : ε → κ) (key : κ) : (history : List (Call κ ε)) → Nat
  | [] => 0
  | .offer _ :: earlier => completions keyOf key earlier
  | .complete k :: earlier =>
    completions keyOf key earlier +
      if k = key ∧ (after keyOf earlier).lanes.isBusy key then 1 else 0

variable {keyOf : ε → κ} {key : κ} {history : List (Call κ ε)}

omit [LT κ] [DecidableLT κ] [KeyOrder κ] in
theorem offeredOn_offer (e : ε) (earlier : List (Call κ ε)) :
    offeredOn keyOf key (.offer e :: earlier) =
      offeredOn keyOf key earlier ++ [e].filter (keyOf · = key) :=
  List.filter_append _ _

omit [LT κ] [DecidableLT κ] [KeyOrder κ] in
theorem offeredOn_complete (k : κ) (earlier : List (Call κ ε)) :
    offeredOn keyOf key (.complete k :: earlier) = offeredOn keyOf key earlier := rfl

/-! ### What the listener hears -/

omit [DecidableEq κ] in
/-- The listener is there from the first call on. -/
theorem released_after (keyOf : ε → κ) (history : List (Call κ ε)) :
    ∃ waiting, (after keyOf history).released = .ofWaiting waiting := by
  induction history with
  | nil => exact ⟨[], rfl⟩
  | cons call earlier ih =>
    obtain ⟨waiting, hwaiting⟩ := ih
    have htold : ∀ e : Option ε, announce (after keyOf earlier).released e =
        .ofWaiting (waiting ++ e.toList) := by
      intro e
      rw [hwaiting, Broadcast.announce_ofWaiting]
    cases call with
    | offer e => exact ⟨_, htold _⟩
    | complete key => exact ⟨_, htold _⟩

omit [DecidableEq κ] in
/-- The listener is told of what is announced, last. -/
theorem heard_announce (keyOf : ε → κ) (history : List (Call κ ε)) (lanes : Lanes κ ε)
    (e : Option ε) :
    heard ⟨lanes, announce (after keyOf history).released e⟩ =
      (after keyOf history).heard ++ e.toList := by
  obtain ⟨waiting, hwaiting⟩ := released_after keyOf history
  rw [heard, heard, hwaiting, Broadcast.announce_ofWaiting]
  rfl

theorem heardOn_offer (e : ε) (earlier : List (Call κ ε)) :
    heardOn keyOf key (.offer e :: earlier) =
      heardOn keyOf key earlier ++
        ((after keyOf earlier).lanes.offer (keyOf e) e).1.toList.filter (keyOf · = key) :=
  (congrArg _ (heard_announce keyOf earlier _ _)).trans (List.filter_append _ _)

theorem heardOn_complete (k : κ) (earlier : List (Call κ ε)) :
    heardOn keyOf key (.complete k :: earlier) =
      heardOn keyOf key earlier ++
        ((after keyOf earlier).lanes.complete k).1.element?.toList.filter (keyOf · = key) :=
  (congrArg _ (heard_announce keyOf earlier _ _)).trans (List.filter_append _ _)

/-! ### What calls keep -/

theorem keyed_after (keyOf : ε → κ) (history : List (Call κ ε)) :
    (after keyOf history).lanes.Keyed keyOf := by
  induction history with
  | nil => exact Lanes.keyed_empty keyOf
  | cons call earlier ih =>
    cases call with
    | offer e => exact ih.offer e
    | complete k => exact ih.complete k

/-- **What was released and what waits is what was offered**, of every key, and in that order. -/
theorem heardOn_append_queue (keyOf : ε → κ) (key : κ) (history : List (Call κ ε)) :
    heardOn keyOf key history ++ (after keyOf history).lanes.queue key =
      offeredOn keyOf key history := by
  induction history with
  | nil => rfl
  | cons call earlier ih =>
    cases call with
    | offer e =>
      have hoffer := Lanes.filter_offer (after keyOf earlier).lanes keyOf e key
      rw [heardOn_offer, offeredOn_offer, ← ih, List.append_assoc, List.append_assoc]
      exact congrArg _ hoffer
    | complete k =>
      have hcomplete := (keyed_after keyOf earlier).filter_complete k key
      rw [heardOn_complete, offeredOn_complete, ← ih, List.append_assoc]
      exact congrArg _ hcomplete

/-- **One element is released for each completion that finds the key busy**, and one more while it
is. -/
theorem length_heardOn (keyOf : ε → κ) (key : κ) (history : List (Call κ ε)) :
    (heardOn keyOf key history).length =
      completions keyOf key history +
        if (after keyOf history).lanes.isBusy key then 1 else 0 := by
  induction history with
  | nil => rfl
  | cons call earlier ih =>
    cases call with
    | offer e =>
      have hoffer := Lanes.countP_offer (after keyOf earlier).lanes keyOf e key
      rw [heardOn_offer, List.length_append, ih, ← List.countP_eq_length_filter, Nat.add_assoc,
        Nat.add_comm (ite _ _ _)]
      exact congrArg _ hoffer
    | complete k =>
      have hcomplete := (keyed_after keyOf earlier).countP_complete k key
      rw [heardOn_complete, List.length_append, ih, ← List.countP_eq_length_filter, completions,
        Nat.add_assoc, Nat.add_assoc, Nat.add_comm (ite _ _ _), hcomplete,
        Nat.add_comm (ite _ _ _)]
      rfl

/-! ### What has come of a key -/

/-- **A key is busy until each of its elements has had a turn.** -/
theorem isBusy_after_iff :
    (after keyOf history).lanes.isBusy key = true ↔
      completions keyOf key history < (offeredOn keyOf key history).length := by
  have hlength := length_heardOn keyOf key history
  rw [← heardOn_append_queue, List.length_append, hlength]
  cases hbusy : (after keyOf history).lanes.isBusy key with
  | true =>
    simp only [if_true, true_iff]
    omega
  | false => simp [Lanes.queue_eq_nil_of_idle hbusy]

/-- No key is completed more often than it has elements. -/
theorem completions_le (keyOf : ε → κ) (key : κ) (history : List (Call κ ε)) :
    completions keyOf key history ≤ (offeredOn keyOf key history).length := by
  have hlength := length_heardOn keyOf key history
  rw [← heardOn_append_queue, List.length_append]
  omega

/-- **The first of what was offered is released**, one more than there were turns that ended. -/
theorem heardOn_eq_take (keyOf : ε → κ) (key : κ) (history : List (Call κ ε)) :
    heardOn keyOf key history =
      (offeredOn keyOf key history).take (completions keyOf key history + 1) := by
  have hsplit := heardOn_append_queue keyOf key history
  have hlength := length_heardOn keyOf key history
  cases hbusy : (after keyOf history).lanes.isBusy key with
  | true =>
    rw [hbusy, if_pos rfl] at hlength
    rw [← hsplit, ← hlength, List.take_left]
  | false =>
    rw [Lanes.queue_eq_nil_of_idle hbusy, List.append_nil] at hsplit
    rw [hbusy, if_neg Bool.false_ne_true] at hlength
    rw [← hsplit, List.take_of_length_le (by omega)]

/-! ### Keys on their own -/

section Other

variable {call : Call κ ε} (h : call.key keyOf ≠ key)

include h

omit [LT κ] [DecidableLT κ] [KeyOrder κ] in
theorem offeredOn_cons_of_ne : offeredOn keyOf key (call :: history) =
    offeredOn keyOf key history := by
  cases call with
  | offer e =>
    rw [offeredOn_offer, List.filter_cons_of_neg (by simpa using h), List.filter_nil,
      List.append_nil]
  | complete k => rfl

theorem completions_cons_of_ne : completions keyOf key (call :: history) =
    completions keyOf key history := by
  cases call with
  | offer e => rfl
  | complete k => rw [completions, if_neg fun hk => h hk.1, Nat.add_zero]

end Other

/-- **The calls on other keys have no part** in what is offered of a key and how often it is
completed. -/
theorem turns_filter (keyOf : ε → κ) (key : κ) (history : List (Call κ ε)) :
    offeredOn keyOf key (history.filter (·.key keyOf = key)) = offeredOn keyOf key history ∧
      completions keyOf key (history.filter (·.key keyOf = key)) =
        completions keyOf key history := by
  induction history with
  | nil => exact ⟨rfl, rfl⟩
  | cons call earlier ih =>
    obtain ⟨hoffered, hcompletions⟩ := ih
    by_cases hcall : call.key keyOf = key
    · rw [List.filter_cons_of_pos (by simpa using hcall)]
      cases call with
      | offer e =>
        rw [offeredOn_offer, offeredOn_offer, hoffered]
        exact ⟨rfl, hcompletions⟩
      | complete k =>
        -- whether a completion finds the key busy is told by what came before
        have hbusy : (after keyOf (earlier.filter (·.key keyOf = key))).lanes.isBusy key =
            (after keyOf earlier).lanes.isBusy key := by
          rw [Bool.eq_iff_iff, isBusy_after_iff, isBusy_after_iff, hoffered, hcompletions]
        rw [completions, completions, hbusy, hcompletions]
        exact ⟨hoffered, rfl⟩
    · rw [List.filter_cons_of_neg (by simpa using hcall), offeredOn_cons_of_ne hcall,
        completions_cons_of_ne hcall]
      exact ⟨hoffered, hcompletions⟩

/-- **What is released of a key is what is released of it on its own.** -/
theorem heardOn_filter (keyOf : ε → κ) (key : κ) (history : List (Call κ ε)) :
    heardOn keyOf key (history.filter (·.key keyOf = key)) = heardOn keyOf key history := by
  obtain ⟨hoffered, hcompletions⟩ := turns_filter keyOf key history
  rw [heardOn_eq_take, heardOn_eq_take, hoffered, hcompletions]

/-! ### The law -/

/-- **What holds of a key after some calls.** -/
structure InTurn (keyOf : ε → κ) (key : κ) (history : List (Call κ ε)) : Prop where
  /-- The elements that were released are the first of those that were offered, in their order. -/
  released_prefix : heardOn keyOf key history <+: offeredOn keyOf key history
  /-- The others wait, in their order. -/
  queue_eq :
    (after keyOf history).lanes.queue key =
      (offeredOn keyOf key history).drop (heardOn keyOf key history).length
  /-- One was released for each completion that found the key busy, and one more if it is. -/
  released_length :
    (heardOn keyOf key history).length =
      completions keyOf key history + if (after keyOf history).lanes.isBusy key then 1 else 0
  /-- The key is idle if each of its elements was released and completed, and only then. -/
  idle_iff :
    (after keyOf history).lanes.isBusy key = false ↔
      heardOn keyOf key history = offeredOn keyOf key history ∧
        completions keyOf key history = (offeredOn keyOf key history).length
  /-- The number of those that wait is what the lanes answer. -/
  waiting_eq :
    (heardOn keyOf key history).length + (after keyOf history).lanes.waiting key =
      (offeredOn keyOf key history).length
  /-- A completion of an idle key changes nothing, releases nothing and is warned of. -/
  complete_idle :
    (after keyOf history).lanes.isBusy key = false →
      (after keyOf history).complete key = ([.idleKeyCompleted], after keyOf history)
  /-- Without the calls on other keys the same would have been released. -/
  released_alone :
    heardOn keyOf key (history.filter (·.key keyOf = key)) = heardOn keyOf key history

omit [DecidableEq κ] in
theorem complete_of_idle {d : Demultiplexer κ ε} (h : d.lanes.isBusy key = false) :
    d.complete key = ([.idleKeyCompleted], d) := by
  rw [complete, Lanes.complete_of_idle h]
  rfl

theorem inTurn_after (keyOf : ε → κ) (key : κ) (history : List (Call κ ε)) :
    InTurn keyOf key history := by
  have hsplit := heardOn_append_queue keyOf key history
  have hlength := length_heardOn keyOf key history
  refine {
    released_prefix := ⟨_, hsplit⟩, queue_eq := ?_, released_length := hlength, idle_iff := ?_,
    waiting_eq := ?_, complete_idle := complete_of_idle,
    released_alone := heardOn_filter keyOf key history }
  · rw [← hsplit, List.drop_left]
  · constructor
    · intro hidle
      rw [Lanes.queue_eq_nil_of_idle hidle, List.append_nil] at hsplit
      rw [hidle, if_neg Bool.false_ne_true, hsplit] at hlength
      exact ⟨hsplit, hlength.symm⟩
    · rintro ⟨-, hall⟩
      rw [Bool.eq_false_iff, Ne, isBusy_after_iff, hall]
      exact Nat.lt_irrefl _
  · rw [← hsplit, List.length_append]
    rfl

/-- The keys of which an element was offered and has not had its turn. -/
def unfinished (keyOf : ε → κ) (history : List (Call κ ε)) : Finset κ :=
  ((offered history).map keyOf).toFinset.filter fun key =>
    completions keyOf key history < (offeredOn keyOf key history).length

theorem mem_unfinished_iff :
    key ∈ unfinished keyOf history ↔ (after keyOf history).lanes.isBusy key = true := by
  rw [unfinished, Finset.mem_filter, ← isBusy_after_iff, List.mem_toFinset]
  refine and_iff_right_of_imp fun hbusy => ?_
  obtain ⟨e, he⟩ := List.exists_mem_of_length_pos (Nat.zero_lt_of_lt (isBusy_after_iff.mp hbusy))
  obtain ⟨hoffered, hkey⟩ := List.mem_filter.mp he
  exact List.mem_map.mpr ⟨e, hoffered, of_decide_eq_true hkey⟩

/-- **Every key has its elements released in turn, whatever becomes of the others.** Whatever
elements are offered and whatever keys are completed, in whatever order: of every key the elements
are released in the order of the offers, one for each completion that finds the key busy and one
more while it is, the others wait, and the key is idle once each of its elements was released and
completed; a completion of an idle key does nothing; and the same is released of the key if the
calls on other keys are left out. The number of the busy keys is the number of those with an
element whose turn has not ended, and all keys are idle if there are none. -/
theorem in_turn (keyOf : ε → κ) (history : List (Call κ ε)) :
    (∀ key, InTurn keyOf key history) ∧
      (after keyOf history).lanes.busy = (unfinished keyOf history).card ∧
      ((after keyOf history).lanes.isIdle = true ↔
        ∀ key, completions keyOf key history = (offeredOn keyOf key history).length) := by
  refine ⟨fun key => inTurn_after keyOf key history,
    Lanes.busy_eq_card fun key => mem_unfinished_iff, ?_⟩
  rw [Lanes.isIdle_iff]
  refine forall_congr' fun key => ?_
  rw [Bool.eq_false_iff, Ne, isBusy_after_iff]
  have hle := completions_le keyOf key history
  omega

/-- Calls on two keys, the latest first: of the odd elements two are completed and a third
completion is stray, before another is offered. -/
def astray : List (Call Nat Nat) :=
  [.offer 5, .complete 1, .complete 1, .complete 1, .offer 2, .offer 3, .offer 1]

theorem in_turn_astray :
    KeyOrder Nat ∧ heardOn (· % 2) 1 astray = [1, 3, 5] ∧ completions (· % 2) 1 astray = 2 ∧
      heardOn (· % 2) 1 (astray.filter (·.key (· % 2) = 1)) = [1, 3, 5] ∧
      (after (· % 2) astray).lanes.busy = 2 := by
  obtain ⟨hturns, hbusy, -⟩ := in_turn (· % 2) astray
  have hheard : heardOn (· % 2) 1 astray = [1, 3, 5] := by decide +kernel
  refine ⟨inferInstance, hheard, by decide +kernel, (hturns 1).released_alone.trans hheard, ?_⟩
  exact hbusy.trans (by decide +kernel)

end Demultiplexer

end EventJournal
