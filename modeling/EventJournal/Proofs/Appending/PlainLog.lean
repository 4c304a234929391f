import EventJournal.Proofs.Appending.Alone
import EventJournal.Proofs.Scanning

/-!
# The log as a plain list

As long as appends do not overlap and no identifier is used twice, the log is a list of events.
Nothing else of the store matters: what an append answers, what it leaves behind and what a read
finds can all be read off the list.

| of the store | of the list |
|---|---|
| the version of a stream | how many of its events there are |
| the counter of positions | how many events there are |
| the index of an event | how many of its stream come before it |
| the position of an event | how many come up to it |

The first and the third row are one statement, `EventJournal.Store.Plain`: the events of a stream
stand at the indexes from zero up to its version. An append keeps it unless it claims versions
for events that do not fit in (`EventJournal.Append.Alone.plain`). No append of a fresh history
(`EventJournal.Append.Fresh`) does so, for an identifier that is new cannot clash, and where fewer
events than `EventJournal.Text.maxWord` have been stored there is a position left.
-/

namespace EventJournal

/-! ### The events of a stream -/

/-- The events of a stream, in the order of the log. -/
def eventsOf (stream : Uuid) (log : List Event) : List Event := log.filter (·.stream = stream)

theorem mem_eventsOf_iff {stream : Uuid} {log : List Event} {e : Event} :
    e ∈ eventsOf stream log ↔ e ∈ log ∧ e.stream = stream := by
  rw [eventsOf, List.mem_filter, decide_eq_true_eq]

@[simp] theorem eventsOf_append (stream : Uuid) (l l' : List Event) :
    eventsOf stream (l ++ l') = eventsOf stream l ++ eventsOf stream l' :=
  List.filter_append l l'

theorem length_eventsOf_le (stream : Uuid) (log : List Event) :
    (eventsOf stream log).length ≤ log.length :=
  List.length_filter_le _ _

/-- A batch is all of one stream. -/
theorem eventsOf_placed (stream : Uuid) (b : Batch) (first : Nat) :
    eventsOf stream (b.placed first) = if stream = b.stream then b.placed first else [] := by
  have hstream : ∀ e ∈ b.placed first, e.stream = b.stream := by
    intro e he
    obtain ⟨k, hk, rfl⟩ := Batch.mem_placed_iff.mp he
    rfl
  split
  · next heq =>
    rw [eventsOf, List.filter_eq_self]
    intro e he
    rw [heq, decide_eq_true_eq]
    exact hstream e he
  · next hne =>
    rw [eventsOf, List.filter_eq_nil_iff]
    intro e he
    rw [decide_eq_true_eq, hstream e he]
    exact Ne.symm hne

/-- The events of a batch stand at indexes in a row. -/
theorem Draft.map_index_placeAll (stream : Uuid) (index position : Nat) (ds : List Draft) :
    (placeAll stream index position ds).map (·.index) = List.range' index ds.length := by
  induction ds generalizing index position with
  | nil => rfl
  | cons d rest ih => rw [placeAll, List.map_cons, ih, List.length_cons, List.range'_succ, place]

namespace Store

/-! ### The log of an ordered store -/

variable {s s' : Store}

/-- No position is left out. -/
theorem Ordered.follow (h : s.Ordered) : Follow 0 s.events.toList :=
  follow_of_forall_position h.coherent.pairwise_toList h.position_iff

/-- **The counter counts the events.** -/
theorem Ordered.length_toList (h : s.Ordered) :
    s.events.toList.length = s.counter Sequence.events := by
  have hiff : ∀ p, 0 < p ∧ p ≤ 0 + s.events.toList.length ↔
      0 < p ∧ p ≤ s.counter Sequence.events := fun p =>
    (h.follow.position_iff p).symm.trans (h.position_iff p)
  -- either is a position unless it is zero
  have hlen := hiff s.events.toList.length
  have hcounter := hiff (s.counter Sequence.events)
  omega

/-- **A batch that is gained comes to the end of the log.** -/
theorem Gains.toList {batch : List Event} (h : s.Gains batch s') (hs : s.Ordered)
    (hfollow : Follow (s.counter Sequence.events) batch) :
    s'.events.toList = s.events.toList ++ batch := by
  refine eq_of_pairwise_position h.ordered.coherent.pairwise_toList ?_ fun e => ?_
  · refine List.pairwise_append.mpr ⟨hs.coherent.pairwise_toList, hfollow.pairwise, ?_⟩
    intro a ha b hb
    exact (hs.position_le ha).trans_lt (hfollow.lt_position hb)
  · rw [h.mem_iff, List.mem_append]

/-! ### Stores that are their lists -/

/-- **A store of which the log says all**: the events of a stream stand at the indexes from zero
up to its version. -/
structure Plain (s : Store) : Prop where
  /-- The events lie below the heads. -/
  bounded : s.Bounded
  /-- The indexes. -/
  index_eq : ∀ stream,
    (eventsOf stream s.events.toList).map (·.index) = List.range (s.version stream)

theorem plain_empty : empty.Plain := ⟨bounded_empty, fun _ => rfl⟩

/-- The version of a stream counts its events. -/
theorem Plain.version_eq (h : s.Plain) (stream : Uuid) :
    s.version stream = (eventsOf stream s.events.toList).length := by
  rw [← List.length_map (·.index), h.index_eq, List.length_range]

/-- A stream has a head if it has events. -/
theorem Plain.map_version (h : s.Plain) (stream : Uuid) :
    (s.heads.get? stream).map (·.version) =
      if (eventsOf stream s.events.toList).length = 0 then none
      else some (eventsOf stream s.events.toList).length := by
  rw [← h.version_eq]
  cases hget : s.heads.get? stream with
  | none => rw [version_of_get?_none hget, if_pos rfl, Option.map_none]
  | some head =>
    have hpos := h.bounded.inPlace.version_pos stream head hget
    rw [version_of_get? hget, if_neg (by omega), Option.map_some]

/-- The events of a stream come in the order of their indexes. -/
theorem Plain.pairwise_index (h : s.Plain) (stream : Uuid) :
    (eventsOf stream s.events.toList).Pairwise fun a b => a.index < b.index := by
  rw [← List.pairwise_map (f := fun e : Event => e.index), h.index_eq]
  exact List.pairwise_lt_range

/-- **What is read of a stream** between two indexes is what stands there in the list. -/
theorem Plain.ofStream_eq (h : s.Plain) (stream : Uuid) (first last : Nat) :
    s.events.ofStream stream first last =
      (eventsOf stream s.events.toList).filter fun e => first ≤ e.index ∧ e.index ≤ last := by
  have hcoherent := h.bounded.ordered.coherent
  refine eq_of_pairwise_lt (hcoherent.pairwise_ofStream stream first last)
    ((h.pairwise_index stream).filter _) fun e => ?_
  rw [hcoherent.mem_ofStream_iff, List.mem_filter, mem_eventsOf_iff, decide_eq_true_eq, and_assoc]

/-- **What is read after a position** is the list without as many events. -/
theorem Ordered.after_eq_take (h : s.Ordered) (position : Option Nat) (limit : Nat) :
    s.events.after position limit = (s.events.toList.drop (position.getD 0)).take limit := by
  rw [h.coherent.after_eq, ← h.follow.filter_lt]
  refine congrArg (List.take limit) (List.filter_congr fun e he => ?_)
  have hpos := h.position_pos he
  cases position with
  | none => simpa using hpos
  | some p => simp

end Store

/-! ### One append -/

/-- A batch that names its stream and what has happened. -/
structure Batch.IsValid (b : Batch) : Prop where
  /-- The stream is not the one that names nothing. -/
  stream : b.stream.isNil = false
  /-- No tag is blank. -/
  tags : ∀ d ∈ b.drafts, Text.blank d.tag = false

/-- A valid batch is refused only if its stream would have too many events. -/
theorem Batch.IsValid.refusal?_eq {b : Batch} (h : b.IsValid) :
    b.refusal? =
      if b.drafts ≠ [] ∧ Text.maxWord < b.version then some .versionOverflow else none := by
  have hfind : b.drafts.find? (fun d => Text.blank d.tag) = none := by
    rw [List.find?_eq_none]
    intro d hd
    rw [h.tags d hd]
    exact Bool.false_ne_true
  rw [refusal?, h.stream, hfind]
  rfl

/-- **What is accepted is valid.** -/
theorem Batch.isValid_of_accepted {b : Batch} (h : b.refusal? = none) : b.IsValid := by
  unfold refusal? at h
  split at h
  · exact nomatch h
  · next hstream =>
    split at h
    · exact nomatch h
    · next hfind =>
      refine ⟨Bool.eq_false_iff.mpr hstream, fun d hd => Bool.eq_false_iff.mpr ?_⟩
      exact List.find?_eq_none.mp hfind d hd

namespace Append

section Alone

variable {b : Batch} {s s' : Store} {r : Except LogError (List Event)}

/-- **The log after an append** is the log before it, with the events of the append at its
end. -/
theorem Alone.toList_eq (h : Alone b s r s') (hs : s.Ordered) :
    (∀ events, r = .ok events →
      events = b.placed (s.events.toList.length + 1) ∧
        s'.events.toList = s.events.toList ++ events) ∧
      ∀ e, r = .error e → s'.events.toList = s.events.toList := by
  rw [hs.length_toList]
  cases h with
  | refused | late =>
    refine ⟨fun events heq => ?_, fun _ _ => rfl⟩
    cases heq
  | empty _ hnil =>
    refine ⟨fun events heq => ?_, fun e he => by cases he⟩
    obtain rfl := Except.ok.inj heq
    rw [Batch.placed, hnil, List.append_nil]
    exact ⟨rfl, rfl⟩
  | @lost head _ _ _ _ _ hagrees =>
    refine ⟨fun events heq => ?_, fun _ _ => hagrees.events.toList⟩
    cases heq
  | @stored head _ _ _ _ _ hgains =>
    refine ⟨fun events heq => ?_, fun e he => by cases he⟩
    obtain rfl := Except.ok.inj heq
    exact ⟨rfl, hgains.toList (hs.withHead head) (Draft.follow_placeAll _ _ _ _)⟩

/-- **An append keeps a store plain** unless its batch is lost. -/
theorem Alone.plain (h : Alone b s r s') (hs : s.Plain) (hlost : ¬b.Lost s) : s'.Plain := by
  have hbounded := h.bounded hs.bounded
  have hlog := h.toList_eq hs.bounded.ordered
  cases h with
  | refused | empty | late => exact hs
  | lost hlost' => exact absurd hlost' hlost
  | @stored head _ hclaimable _ hstream hversion hgains =>
    refine ⟨hbounded, fun stream => ?_⟩
    obtain ⟨-, hlist⟩ := hlog.1 _ rfl
    rw [hlist, eventsOf_append, eventsOf_placed, List.map_append, hs.index_eq,
      Store.version_congr hgains.heads, Store.version_withHead, hstream]
    split
    · next heq =>
      -- the indexes of the batch go on where those of the stream end
      rw [heq, Batch.placed, Draft.map_index_placeAll, hclaimable.version_eq, hversion,
        Batch.version, List.range_eq_range', List.range_eq_range', ← List.range'_append_1,
        Nat.zero_add]
    · rw [List.map_nil, List.append_nil]

end Alone

/-! ### One append after another -/

/-- **Appends that bring nothing but what is new**, and not more than can be counted. -/
structure Fresh (history : List Batch) : Prop where
  /-- No identifier is used twice. -/
  nodup : (history.flatMap Batch.ids).Nodup
  /-- There are fewer events than sixty-four bits can tell apart. -/
  total_le : (history.map (·.drafts.length)).sum ≤ Text.maxWord

theorem Fresh.of_suffix {earlier history : List Batch} (h : Fresh history)
    (hsuffix : earlier <:+ history) : Fresh earlier := by
  obtain ⟨later, rfl⟩ := hsuffix
  have hnodup := h.nodup
  have htotal := h.total_le
  rw [List.flatMap_append, List.nodup_append] at hnodup
  rw [List.map_append, List.sum_append] at htotal
  exact ⟨hnodup.2.1, by omega⟩

/-- **What the log can hold** after some appends. -/
theorem log_afterAll (history : List Batch) :
    (∀ e ∈ (afterAll history).events.toList, e.id ∈ history.flatMap Batch.ids) ∧
      (afterAll history).events.toList.length ≤ (history.map (·.drafts.length)).sum := by
  induction history with
  | nil => exact ⟨nofun, le_rfl⟩
  | cons b earlier ih =>
    have hs := bounded_afterAll earlier
    obtain ⟨r, halone⟩ := alone_after (b := b) hs
    obtain ⟨hok, herror⟩ := halone.toList_eq hs.ordered
    rw [afterAll, List.flatMap_cons, List.map_cons, List.sum_cons]
    cases r with
    | error e =>
      rw [herror e rfl]
      exact ⟨fun x hx => List.mem_append_right _ (ih.1 x hx), Nat.le_add_left_of_le ih.2⟩
    | ok events =>
      obtain ⟨heq, hlist⟩ := hok events rfl
      rw [hlist]
      refine ⟨fun x hx => ?_, ?_⟩
      · rcases List.mem_append.mp hx with hx | hx
        · exact List.mem_append_right _ (ih.1 x hx)
        · rw [heq] at hx
          obtain ⟨k, hk, rfl⟩ := Batch.mem_placed_iff.mp hx
          exact List.mem_append_left _ (List.mem_map_of_mem (List.getElem_mem hk))
      · rw [List.length_append, heq, Batch.length_placed]
        omega

/-- **What is new is not lost.** -/
theorem Fresh.not_lost {b : Batch} {earlier : List Batch} (h : Fresh (b :: earlier)) :
    ¬b.Lost (afterAll earlier) := by
  rintro ⟨hclaimable, hnot⟩
  have hnodup := h.nodup
  have htotal := h.total_le
  obtain ⟨hids, hlength⟩ := log_afterAll earlier
  rw [List.flatMap_cons, List.nodup_append] at hnodup
  rw [List.map_cons, List.sum_cons] at htotal
  refine hnot ⟨hnodup.1, fun e he hid => ?_, ?_⟩
  · exact hnodup.2.2 e.id hid e.id (hids e he) rfl
  · -- the counter has counted no more events than were to be appended
    have hpos := List.length_pos_of_ne_nil hclaimable.nonempty
    rw [← (bounded_afterAll earlier).ordered.length_toList]
    omega

theorem Fresh.plain {history : List Batch} (h : Fresh history) : (afterAll history).Plain := by
  induction history with
  | nil => exact Store.plain_empty
  | cons b earlier ih =>
    have hs := ih (h.of_suffix (List.suffix_cons b earlier))
    obtain ⟨r, halone⟩ := alone_after (b := b) hs.bounded
    exact halone.plain hs h.not_lost

/-! ### The list -/

/-- **An append that does what it would do to a plain list.** The log is `s` before it, and `s'`
when it has answered `r`. -/
structure AsList (b : Batch) (s : Store) (r : Except LogError (List Event)) (s' : Store) :
    Prop where
  /-- A valid batch succeeds if there is nothing to append or the stream has as many events as
  were expected. No other batch does. -/
  succeeds_iff : (∃ events, r = .ok events) ↔ b.IsValid ∧
    (b.drafts = [] ∨ b.expected = (eventsOf b.stream s.events.toList).length)
  /-- What is answered is the batch, each event after the one before it in its stream and in the
  log; and it comes to the end of the log. -/
  appends : ∀ events, r = .ok events →
    events = (b.drafts.mapIdx fun i d =>
      d.place b.stream (b.expected + i) (s.events.toList.length + 1 + i)) ∧
    s'.events.toList = s.events.toList ++ events
  /-- A batch without events succeeds, and changes nothing. -/
  empty : b.drafts = [] → b.stream.isNil = false → r = .ok [] ∧ s' = s
  /-- A batch that fails is refused, or is late; and it changes nothing. -/
  fails : ∀ e, r = .error e →
    ((∃ refusal, e = .invalid refusal) ∨
      e = .concurrency b.stream (b.expected + b.drafts.length)) ∧ s' = s

/-- **An append to a plain log** that does not lose its batch does what it would do to a list. -/
theorem Alone.asList {b : Batch} {s s' : Store} {r : Except LogError (List Event)}
    (h : Alone b s r s') (hs : s.Plain) (hlost : ¬b.Lost s)
    (htotal : s.events.toList.length + b.drafts.length ≤ Text.maxWord) : AsList b s r s' := by
  have hversion := hs.version_eq b.stream
  refine ⟨?_, fun events hr => ?_, fun hnil hstream => ?_, fun e hr => ?_⟩
  · cases h with
    | refused hrefusal =>
      refine iff_of_false ?_ ?_
      · rintro ⟨events, hok⟩
        cases hok
      · rintro ⟨hvalid, hplace⟩
        have hle := length_eventsOf_le b.stream s.events.toList
        -- the stream would not have too many events
        have hfits : ¬(b.drafts ≠ [] ∧ Text.maxWord < b.version) := by
          rintro ⟨hds, hlt⟩
          have hexpected := hplace.resolve_left hds
          rw [Batch.version] at hlt
          omega
        rw [hvalid.refusal?_eq, if_neg hfits] at hrefusal
        cases hrefusal
    | empty haccepted hnil =>
      exact iff_of_true ⟨_, rfl⟩ ⟨Batch.isValid_of_accepted haccepted, Or.inl hnil⟩
    | late _ hds hne =>
      refine iff_of_false ?_ ?_
      · rintro ⟨events, hok⟩
        cases hok
      · rintro ⟨-, hplace⟩
        rw [hversion, hplace.resolve_left hds] at hne
        exact hne rfl
    | stored hclaimable =>
      exact iff_of_true ⟨_, rfl⟩ ⟨Batch.isValid_of_accepted hclaimable.accepted,
        Or.inr (hclaimable.version_eq.symm.trans hversion)⟩
    | lost hlost' => exact absurd hlost' hlost
  · obtain ⟨heq, hlist⟩ := (h.toList_eq hs.bounded.ordered).1 events hr
    refine ⟨?_, hlist⟩
    rw [heq, Batch.placed, Draft.placeAll_eq_mapIdx]
  · cases h with
    | refused hrefusal =>
      have hvalid : b.IsValid := ⟨hstream, by rw [hnil]; exact List.forall_mem_nil _⟩
      rw [hvalid.refusal?_eq, if_neg fun hds => hds.1 hnil] at hrefusal
      cases hrefusal
    | empty => exact ⟨rfl, rfl⟩
    | late _ hds => exact absurd hnil hds
    | stored hclaimable => exact absurd hnil hclaimable.nonempty
    | lost hlost' => exact absurd hlost' hlost
  · cases h with
    | refused hrefusal =>
      obtain rfl := Except.error.inj hr
      exact ⟨Or.inl ⟨_, rfl⟩, rfl⟩
    | late =>
      obtain rfl := Except.error.inj hr
      exact ⟨Or.inr rfl, rfl⟩
    | lost hlost' => exact absurd hlost' hlost
    | empty | stored => cases hr

end Append

/-- **A log that is read as a plain list is read.** -/
structure Store.ReadsAsList (s : Store) : Prop where
  /-- The version of a stream is the number of its events. A stream without events has none. -/
  version : ∀ stream,
    Progress.runAlone (Request.next (.streamVersion stream)) 2
        (Request.start (.streamVersion stream)) s =
      some (.ok (.number (if (eventsOf stream s.events.toList).length = 0 then none
        else some (eventsOf stream s.events.toList).length)), [], s)
  /-- A stream is read between two indexes, both included. -/
  ofStream : ∀ stream first last,
    Progress.runAlone Reading.next 2 (.ofStream stream first last) s =
      some (.ok ((eventsOf stream s.events.toList).filter fun e =>
        first ≤ e.index ∧ e.index ≤ last), [], s)
  /-- The log is read after a position, or from its beginning. -/
  after : ∀ position limit,
    Progress.runAlone Reading.next 2 (.after position limit) s =
      some (.ok ((s.events.toList.drop (position.getD 0)).take limit), [], s)

theorem Store.Plain.readsAsList {s : Store} (h : s.Plain) : s.ReadsAsList := by
  refine ⟨fun stream => ?_, fun stream first last => ?_, fun position limit => ?_⟩
  · rw [← h.map_version]
    rfl
  · rw [Reading.runAlone_ofStream h.bounded.ordered.coherent, h.ofStream_eq]
  · rw [Reading.runAlone_after s position limit 0, h.bounded.ordered.after_eq_take]

namespace Append

/-- **Without overlaps the log is a plain list.** Appends come one after another to a new log, the
latest standing first in `history`; none brings an identifier that is used twice, and there are
not more events than can be counted. Then each of them ends, and does to the log what it would do
to the list of its events; and after as many of them as one likes, each read finds what it would
find in the list. -/
theorem plain_log {history : List Batch} (h : Fresh history) :
    (∀ b earlier, b :: earlier <:+ history → ∃ r,
      Ends b 6 (start b) (afterAll earlier) r (afterAll (b :: earlier)) ∧
      AsList b (afterAll earlier) r (afterAll (b :: earlier))) ∧
    ∀ earlier, earlier <:+ history → (afterAll earlier).ReadsAsList := by
  refine ⟨fun b earlier hsuffix => ?_, fun earlier hsuffix => ?_⟩
  · have hfresh := h.of_suffix hsuffix
    have hplain := (hfresh.of_suffix (List.suffix_cons b earlier)).plain
    have htotal := hfresh.total_le
    have hlength := (log_afterAll earlier).2
    rw [List.map_cons, List.sum_cons] at htotal
    obtain ⟨r, hends, halone⟩ := ends_after (b := b) hplain.bounded
    exact ⟨r, hends, halone.asList hplain hfresh.not_lost (by omega)⟩
  · exact (h.of_suffix hsuffix).plain.readsAsList

/-- Of three batches for a stream the second comes too late, and leaves no trace: the third goes
to the place after the first. -/
theorem plain_log_three :
    let history := [Batch.ofNumbers 1 2 [12], .ofNumbers 1 1 [13], .ofNumbers 1 0 [10, 11]]
    let s := afterAll history
    Fresh history ∧ s.ReadsAsList ∧
      (eventsOf (.ofNat 1) s.events.toList).map (fun e => (e.index, e.position, e.id)) =
        [(0, 1, .ofNat 10), (1, 2, .ofNat 11), (2, 3, .ofNat 12)] := by
  intro history s
  have hfresh : Fresh history := ⟨by decide, by decide⟩
  exact ⟨hfresh, (plain_log hfresh).2 history List.suffix_rfl, by decide⟩

end Append

end EventJournal
