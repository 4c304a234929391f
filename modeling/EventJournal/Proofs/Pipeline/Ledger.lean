import EventJournal.Proofs.Pipeline.Run
import EventJournal.Proofs.Pipeline.Workshop

/-!
# Where the elements of a run are

A run numbers the events that it fetches (`EventJournal.numbered`). From then on each element is
in one place: it waits on its lane, is released, has been dispatched, or has been counted with its
outcome. The last two are handlings, as in a workshop (`EventJournal.PipelineRun.handlings`), and
what has been counted has to be remembered beside the run, which keeps only a number.

The *ledger* of a run (`EventJournal.PipelineRun.Ledger`) says this key by key, and with it what
the run knows of its elements:

| the run has | for |
|---|---|
| an entry in `known` | each number since the start of the stretch |
| a finished number, or an announced one | each handling whose success was announced |
| a counted success, a counted failure | each counted handling |

The frontier is as far as it can be at all times, so that it can be read off the ledger where it
is.
-/

namespace EventJournal

/-! ### Numbered elements -/

/-- The elements of events that are fetched in this order. -/
def numbered (keyOf : Event → Uuid) (events : List Event) : List Element :=
  events.mapIdx fun i e => ⟨i + 1, keyOf e, e⟩

section Numbered

variable {keyOf : Event → Uuid} {events : List Event} {x : Element}

@[simp] theorem length_numbered : (numbered keyOf events).length = events.length :=
  List.length_mapIdx

@[simp] theorem map_event_numbered : (numbered keyOf events).map (·.event) = events := by
  refine List.ext_getElem (by simp [numbered]) fun i _ _ => ?_
  simp [numbered]

theorem numbered_append_singleton (e : Event) :
    numbered keyOf (events ++ [e]) =
      numbered keyOf events ++ [⟨events.length + 1, keyOf e, e⟩] := by
  simp [numbered]

theorem mem_numbered_iff :
    x ∈ numbered keyOf events ↔
      ∃ i, events[i]? = some x.event ∧ x.number = i + 1 ∧ x.key = keyOf x.event := by
  rw [numbered, List.mem_mapIdx]
  constructor
  · rintro ⟨i, hi, rfl⟩
    exact ⟨i, List.getElem?_eq_getElem hi, rfl, rfl⟩
  · rintro ⟨i, hevent, hnumber, hkey⟩
    obtain ⟨hi, hevent⟩ := List.getElem?_eq_some_iff.mp hevent
    refine ⟨i, hi, ?_⟩
    rw [hevent, ← hnumber, ← hkey]

/-- No number is beyond the number of events. -/
theorem number_le_of_mem_numbered (h : x ∈ numbered keyOf events) : x.number ≤ events.length := by
  obtain ⟨i, hi, heq, -⟩ := mem_numbered_iff.mp h
  have hlt := (List.getElem?_eq_some_iff.mp hi).1
  omega

/-- No two elements have one number. -/
theorem nodup_map_number (keyOf : Event → Uuid) (events : List Event) :
    ((numbered keyOf events).map (·.number)).Nodup := by
  rw [List.nodup_iff_pairwise_ne, List.pairwise_iff_getElem]
  intro i j hi hj hlt
  simp only [numbered, List.getElem_map, List.getElem_mapIdx]
  omega

end Numbered

/-! ### Handlings in any order -/

namespace Handling

variable {ε : Type} {p : Stage → Bool} {handlings handlings' : List (Handling ε)}

theorem elementsAt_perm (p : Stage → Bool) (h : handlings.Perm handlings') :
    (elementsAt p handlings).Perm (elementsAt p handlings') :=
  (h.filter _).map _

theorem mem_elementsAt_iff {e : ε} :
    e ∈ elementsAt p handlings ↔ ∃ stage, ⟨e, stage⟩ ∈ handlings ∧ p stage = true := by
  simp only [elementsAt, List.mem_map, List.mem_filter]
  constructor
  · rintro ⟨h, ⟨hmem, hp⟩, rfl⟩
    exact ⟨h.stage, hmem, hp⟩
  · rintro ⟨stage, hmem, hp⟩
    exact ⟨_, ⟨hmem, hp⟩, rfl⟩

end Handling

namespace PipelineRun

/-- The handlings of a run: those that are under way, and the counted ones. -/
def handlings (counted : List (Element × Outcome)) (r : PipelineRun) : List (Handling Element) :=
  r.assigned.map (fun a => ⟨a.element, a.stage⟩) ++
    counted.map fun c => ⟨c.1, .completed c.2⟩

/-- **The ledger of a run** that has fetched events, when the outcomes of elements have been
counted. -/
structure Ledger (keyOf : Event → Uuid) (events : List Event)
    (counted : List (Element × Outcome)) (r : PipelineRun) : Prop where
  /-- The fetched events have been numbered. -/
  fetched_eq : r.fetched = events.length
  /-- The events are known by their numbers, since the start of the stretch. -/
  known_eq : ∀ n, r.known.get? n =
    if r.frontier.start < n then (events[n - 1]?).map (·.id) else none
  /-- Each element is in one place. -/
  places : ∀ key, ((numbered keyOf events).filter (·.key = key)).Perm
    ((r.released ++ (r.handlings counted).map Handling.element).filter (·.key = key) ++
      r.lanes.queue key)
  /-- One element of each busy key is in flight, and none of an idle one. -/
  carries : r.lanes.Carries (·.key)
    (r.released ++ Handling.elementsAt (fun s => !s.isCompleted) (r.handlings counted))
  /-- The frontier is as far as it can be. -/
  tight : r.frontier.Tight
  /-- What has finished, or will when the loop hears of it, are the announced successes. -/
  raised_iff : ∀ n, 0 < n → ((r.frontier.Finished n ∨ ∃ e ∈ r.processed, e.number = n) ↔
    ∃ e ∈ Handling.elementsAt Stage.isRaised (r.handlings counted), e.number = n)
  /-- The counted successes. -/
  processed_eq : r.stats.processed = counted.countP (·.2.isSuccess)
  /-- The counted failures. -/
  failed_eq : r.stats.failed = counted.countP (!·.2.isSuccess)

variable {keyOf : Event → Uuid} {events : List Event} {counted : List (Element × Outcome)}
  {r r' : PipelineRun}

theorem ledger_start (keyOf : Event → Uuid) (config : PipelineConfig) (position : Option Nat) :
    (start config position).Ledger keyOf [] [] where
  fetched_eq := rfl
  known_eq n := by
    split <;> rfl
  places key := .refl _
  carries := Lanes.carries_empty _
  tight := Frontier.tight_ofPosition 0
  raised_iff n hn := by
    refine iff_of_false ?_ ?_
    · rintro (hfinished | ⟨e, he, -⟩)
      · rcases hfinished with hle | hmem
        · exact absurd hn (Nat.not_lt.mpr hle)
        · exact absurd hmem List.not_mem_nil
      · exact absurd he List.not_mem_nil
    · rintro ⟨e, he, -⟩
      exact absurd he List.not_mem_nil
  processed_eq := rfl
  failed_eq := rfl

/-! ### Reading the ledger -/

/-- What was released or is handled was fetched. -/
theorem Ledger.mem_numbered (h : r.Ledger keyOf events counted) {e : Element}
    (he : e ∈ r.released ++ (r.handlings counted).map Handling.element) :
    e ∈ numbered keyOf events := by
  have hmem := (h.places e.key).mem_iff.mpr
    (List.mem_append_left _ (List.mem_filter.mpr ⟨he, by simp⟩))
  exact (List.mem_filter.mp hmem).1

/-- No element is in two places. -/
theorem Ledger.subperm (h : r.Ledger keyOf events counted) :
    (r.released ++ (r.handlings counted).map Handling.element).Subperm (numbered keyOf events) :=
  subperm_of_forall_filter fun key =>
    (List.sublist_append_left _ _).subperm.trans (h.places key).symm.subperm

/-- No two elements in hand have one number. -/
theorem Ledger.nodup_number (h : r.Ledger keyOf events counted) :
    ((r.handlings counted).map (·.element.number)).Nodup := by
  obtain ⟨l, hperm, hsub⟩ := (List.sublist_append_right r.released _).subperm.trans h.subperm
  have hnodup := (nodup_map_number keyOf events).sublist (hsub.map (·.number))
  have hmap := (hperm.map (·.number)).nodup_iff.mp hnodup
  rwa [List.map_map] at hmap

/-- No two dispatched elements have one number. -/
theorem Ledger.nodup_assigned (h : r.Ledger keyOf events counted) :
    (r.assigned.map (·.element.number)).Nodup := by
  have hnodup := h.nodup_number
  rw [handlings, List.map_append, List.map_map] at hnodup
  exact (List.nodup_append.mp hnodup).1

/-- A dispatched element is known by its number. -/
theorem Ledger.eq_of_assigned (h : r.Ledger keyOf events counted) {number : Nat}
    {a b : Assignment} (ha : r.assignment? number = some a) (hb : b ∈ r.assigned)
    (hnumber : b.element.number = number) : b = a := by
  obtain ⟨hmem, rfl⟩ := assignment?_eq_some ha
  exact List.inj_on_of_nodup_map h.nodup_assigned hb hmem hnumber

/-- **One handling among the others**: what becomes of it when it comes to another stage, and when
it is counted. -/
theorem Ledger.handlings_split (h : r.Ledger keyOf events counted) {number : Nat} {e : Element}
    {stage : Stage} (ha : r.assignment? number = some ⟨e, stage⟩) :
    ∃ others, (r.handlings counted).Perm (⟨e, stage⟩ :: others) ∧
      (∀ next, ((r.moveTo number next).handlings counted).Perm (⟨e, next⟩ :: others)) ∧
      ∀ outcome, ((r.count number outcome).handlings (counted ++ [(e, outcome)])).Perm
        (⟨e, .completed outcome⟩ :: others) := by
  obtain ⟨hmem, rfl⟩ := assignment?_eq_some ha
  obtain ⟨pre, post, heq⟩ := List.append_of_mem hmem
  -- all others have other numbers
  have hne : ∀ b ∈ pre ++ post, b.element.number ≠ e.number := by
    have hassigned := h.nodup_assigned
    rw [heq, (List.perm_middle.map _).nodup_iff, List.map_cons, List.nodup_cons] at hassigned
    intro b hb hnumber
    exact hassigned.1 (List.mem_map.mpr ⟨b, hb, hnumber⟩)
  have hpre : ∀ b ∈ pre, b.element.number ≠ e.number := fun b hb => hne b (by simp [hb])
  have hpost : ∀ b ∈ post, b.element.number ≠ e.number := fun b hb => hne b (by simp [hb])
  refine ⟨(pre ++ post).map (fun a => ⟨a.element, a.stage⟩) ++
    counted.map fun c => ⟨c.1, .completed c.2⟩, ?_, fun next => ?_, fun outcome => ?_⟩
  · rw [handlings, heq]
    simp
  · have hmap : ∀ l : List Assignment, (∀ b ∈ l, b.element.number ≠ e.number) →
        l.map (fun a => if a.element.number = e.number then { a with stage := next } else a) =
          l := by
      intro l hl
      refine (List.map_congr_left fun b hb => ?_).trans (List.map_id l)
      exact if_neg (hl b hb)
    rw [handlings, moveTo]
    simp only [heq, List.map_append, List.map_cons, if_true, hmap pre hpre, hmap post hpost]
    simp
  · have hfilter : ∀ l : List Assignment, (∀ b ∈ l, b.element.number ≠ e.number) →
        l.filter (fun a => a.element.number ≠ e.number) = l := by
      intro l hl
      exact List.filter_eq_self.mpr fun b hb => by simpa using hl b hb
    rw [handlings, count]
    simp only [heq, List.filter_append, hfilter pre hpre, List.filter_cons, hfilter post hpost]
    -- the counted handling is at the end of the list now
    refine List.Perm.trans (List.Perm.of_eq ?_) (List.perm_append_singleton _ _)
    simp

/-- **A run that knows its events** by their numbers, since the start of the stretch. -/
structure Knows (events : List Event) (r : PipelineRun) : Prop where
  /-- The events by their numbers. -/
  known_eq : ∀ n, r.known.get? n =
    if r.frontier.start < n then (events[n - 1]?).map (·.id) else none
  /-- The frontier is as far as it can be. -/
  tight : r.frontier.Tight

theorem Ledger.knows (h : r.Ledger keyOf events counted) : r.Knows events :=
  ⟨h.known_eq, h.tight⟩

/-! ### Fetching -/

/-- No number has finished, or is announced to have, that is beyond what was fetched. -/
theorem Ledger.number_le (h : r.Ledger keyOf events counted) {n : Nat}
    (hn : r.frontier.Finished n ∨ ∃ e ∈ r.processed, e.number = n) : n ≤ events.length := by
  rcases Nat.eq_zero_or_pos n with hzero | hpos
  · omega
  · obtain ⟨e, he, rfl⟩ := (h.raised_iff n hpos).mp hn
    obtain ⟨stage, hmem, -⟩ := Handling.mem_elementsAt_iff.mp he
    have hhandled := List.mem_map_of_mem (f := Handling.element) hmem
    exact number_le_of_mem_numbered (h.mem_numbered (List.mem_append_right _ hhandled))

/-- The frontier is not beyond what was fetched. -/
theorem Ledger.position_le (h : r.Ledger keyOf events counted) :
    r.frontier.position ≤ events.length :=
  h.number_le (Or.inl (Or.inl le_rfl))

theorem getElem?_append_singleton_of_ne {α : Type} {l : List α} {x : α} {i : Nat}
    (hi : i ≠ l.length) : (l ++ [x])[i]? = l[i]? := by
  rcases Nat.lt_or_gt_of_ne hi with hlt | hgt
  · exact List.getElem?_append_left hlt
  · rw [List.getElem?_eq_none hgt.le, List.getElem?_eq_none]
    rw [List.length_append]
    exact hgt

/-- One more event is known. -/
theorem Knows.acceptOne (h : r.Knows events) (hfetched : r.fetched = events.length)
    (hle : r.frontier.position ≤ events.length) (event : Event) :
    (r.acceptOne keyOf event).Knows (events ++ [event]) := by
  refine ⟨fun n => ?_, h.tight⟩
  change (r.known.insert (r.fetched + 1) event.id).get? n = if r.frontier.start < n then _ else _
  have hstart := h.tight.start_le.trans hle
  rw [SortedMap.get?_insert, hfetched, h.known_eq]
  by_cases hn : n = events.length + 1
  · subst hn
    simp [Nat.lt_succ_of_le hstart]
  · rw [if_neg hn]
    by_cases hlt : r.frontier.start < n
    · rw [if_pos hlt, if_pos hlt, getElem?_append_singleton_of_ne (by omega)]
    · rw [if_neg hlt, if_neg hlt]

/-- **One more event is numbered**, and offered. -/
theorem Ledger.acceptOne (h : r.Ledger keyOf events counted) (event : Event) :
    (r.acceptOne keyOf event).Ledger keyOf (events ++ [event]) counted where
  fetched_eq := by
    rw [List.length_append]
    exact congrArg (· + 1) h.fetched_eq
  known_eq := (h.knows.acceptOne h.fetched_eq h.position_le event).known_eq
  places key := by
    have hoffer := r.lanes.filter_offer (·.key) ⟨r.fetched + 1, keyOf event, event⟩ key
    rw [numbered_append_singleton, ← h.fetched_eq]
    refine List.perm_iff_count.mpr fun x => ?_
    have hplaces := (h.places key).count_eq x
    have hcount := congrArg (List.count x) hoffer
    simp only [PipelineRun.acceptOne, handlings, List.filter_append, List.count_append] at *
    omega
  carries := by
    refine (h.carries.offer ⟨r.fetched + 1, keyOf event, event⟩).perm ?_
    rw [List.append_assoc]
    refine (List.Perm.append_left _ List.perm_append_comm).trans ?_
    rw [← List.append_assoc]
    exact .refl _
  tight := h.tight
  raised_iff := h.raised_iff
  processed_eq := h.processed_eq
  failed_eq := h.failed_eq

/-- **A batch is numbered**, and offered. -/
theorem Ledger.accept (h : r.Ledger keyOf events counted) (batch : List Event) :
    (r.accept keyOf batch).Ledger keyOf (events ++ batch) counted := by
  have hfold : (batch.foldl (PipelineRun.acceptOne keyOf) r).Ledger keyOf (events ++ batch)
      counted := by
    induction batch generalizing r events with
    | nil => simpa using h
    | cons e rest ih =>
      have hledger := ih (h.acceptOne e)
      rwa [List.append_assoc] at hledger
  exact { hfold with }

/-- **What a batch does to the rest of a run**: it is counted, and its last event is where the
next fetch begins. -/
theorem accept_frame (keyOf : Event → Uuid) (batch : List Event) (r : PipelineRun) :
    (r.accept keyOf batch).config = r.config ∧ (r.accept keyOf batch).frontier = r.frontier ∧
      (r.accept keyOf batch).stats.fetched = r.stats.fetched + batch.length ∧
      (r.accept keyOf batch).position = (lastPosition batch).or r.position ∧
      (r.accept keyOf batch).assigned = r.assigned := by
  have hfold : ∀ r : PipelineRun, (batch.foldl (acceptOne keyOf) r).config = r.config ∧
      (batch.foldl (acceptOne keyOf) r).frontier = r.frontier ∧
      (batch.foldl (acceptOne keyOf) r).stats = r.stats ∧
      (batch.foldl (acceptOne keyOf) r).position = (lastPosition batch).or r.position ∧
      (batch.foldl (acceptOne keyOf) r).assigned = r.assigned := by
    induction batch with
    | nil => exact fun r => ⟨rfl, rfl, rfl, rfl, rfl⟩
    | cons e rest ih =>
      intro r
      obtain ⟨hconfig, hfrontier, hstats, hposition, hassigned⟩ := ih (r.acceptOne keyOf e)
      refine ⟨hconfig, hfrontier, hstats, hposition.trans ?_, hassigned⟩
      rw [lastPosition, lastPosition, List.getLast?_cons]
      cases rest.getLast? <;> rfl
  obtain ⟨hconfig, hfrontier, hstats, hposition, hassigned⟩ := hfold r
  refine ⟨hconfig, hfrontier, ?_, hposition, hassigned⟩
  rw [accept, hstats]

/-! ### Handling -/

/-- What is in one place after another is still in one place. -/
theorem Ledger.places_perm (h : r.Ledger keyOf events counted) {l : List Element}
    (hl : l.Perm (r.released ++ (r.handlings counted).map Handling.element)) (key : Uuid) :
    ((numbered keyOf events).filter (·.key = key)).Perm
      (l.filter (·.key = key) ++ r.lanes.queue key) :=
  (h.places key).trans ((hl.symm.filter _).append_right _)

/-- The announced successes may be told in any order. -/
theorem Ledger.raised_iff_perm (h : r.Ledger keyOf events counted) {l : List Element}
    (hl : l.Perm (Handling.elementsAt Stage.isRaised (r.handlings counted))) (n : Nat)
    (hn : 0 < n) :
    (r.frontier.Finished n ∨ ∃ e ∈ r.processed, e.number = n) ↔ ∃ e ∈ l, e.number = n := by
  simp only [hl.mem_iff]
  exact h.raised_iff n hn

/-- A released element is dispatched. -/
theorem Ledger.dispatch (h : r.Ledger keyOf events counted) {e : Element}
    (hd : r.dispatch? = some (e, r')) : r'.Ledger keyOf events counted := by
  rw [dispatch?] at hd
  split at hd
  · next first rest hreleased =>
    cases hd
    have hperm : (handlings counted
        { r with released := rest, assigned := r.assigned ++ [⟨e, .waiting⟩] }).Perm
        (⟨e, .waiting⟩ :: r.handlings counted) := by
      rw [handlings, handlings, List.map_append, List.append_assoc]
      exact List.perm_middle
    -- the element was at the head of the channel, and is among the handlings now
    have hmove : ∀ l l' : List Element, l'.Perm (e :: l) →
        (rest ++ l').Perm (r.released ++ l) := by
      intro l l' hl
      rw [hreleased]
      exact (hl.append_left rest).trans List.perm_middle
    have hat := fun p => Handling.elementsAt_perm p hperm
    simp only [Handling.elementsAt_cons] at hat
    exact
      { h with
        places := h.places_perm (hmove _ _ (hperm.map _))
        carries := h.carries.perm (hmove _ _ (hat _)).symm
        raised_iff := h.raised_iff_perm (hat _) }
  · cases hd

section Assigned

variable {number : Nat} {e : Element} {stage next : Stage} {outcome : Outcome}

/-- A handling that has come to another stage is still that of its element. -/
theorem Ledger.map_element_moveTo (h : r.Ledger keyOf events counted)
    (ha : r.assignment? number = some ⟨e, stage⟩) (next : Stage) :
    (((r.moveTo number next).handlings counted).map Handling.element).Perm
      ((r.handlings counted).map Handling.element) := by
  obtain ⟨others, hnow, hthen, -⟩ := h.handlings_split ha
  have hbefore : ((r.handlings counted).map Handling.element).Perm
      (e :: others.map Handling.element) := hnow.map _
  exact ((hthen next).map Handling.element).trans hbefore.symm

/-- Stages of a kind are told apart before and after by those of one handling. -/
theorem Ledger.elementsAt_moveTo (h : r.Ledger keyOf events counted)
    (ha : r.assignment? number = some ⟨e, stage⟩) (p : Stage → Bool) (next : Stage) :
    ∃ others, (Handling.elementsAt p (r.handlings counted)).Perm
        ((if p stage then [e] else []) ++ others) ∧
      (Handling.elementsAt p ((r.moveTo number next).handlings counted)).Perm
        ((if p next then [e] else []) ++ others) := by
  obtain ⟨others, hnow, hthen, -⟩ := h.handlings_split ha
  refine ⟨Handling.elementsAt p others, ?_, ?_⟩
  · rw [← Handling.elementsAt_cons]
    exact Handling.elementsAt_perm p hnow
  · rw [← Handling.elementsAt_cons]
    exact Handling.elementsAt_perm p (hthen next)

/-- **A handling comes to another stage** before its element is completed. If that announces a
success, the loop will hear of it. -/
theorem Ledger.moveTo (h : r.Ledger keyOf events counted)
    (ha : r.assignment? number = some ⟨e, stage⟩) (next : Stage)
    (hcompleted : next.isCompleted = stage.isCompleted)
    (hraised : stage.isRaised = true → next.isRaised = true) :
    Ledger keyOf events counted
      { r.moveTo number next with
        processed := r.processed ++ if next.isRaised && !stage.isRaised then [e] else [] } := by
  refine { h with places := ?_, carries := ?_, raised_iff := fun n hn => ?_ }
  · exact h.places_perm ((h.map_element_moveTo ha next).append_left _)
  · obtain ⟨others, hnow, hthen⟩ := h.elementsAt_moveTo ha (fun s => !s.isCompleted) next
    refine h.carries.perm (List.Perm.append_left _ (hnow.trans ?_))
    rw [← hcompleted]
    exact hthen.symm
  · obtain ⟨others, hnow, hthen⟩ := h.elementsAt_moveTo ha Stage.isRaised next
    have hold := h.raised_iff n hn
    simp only [hnow.mem_iff] at hold
    change (r.frontier.Finished n ∨ _) ↔
      ∃ x ∈ Handling.elementsAt Stage.isRaised ((r.moveTo number next).handlings counted), _
    simp only [hthen.mem_iff]
    cases hs : stage.isRaised with
    | true => simpa [hs, hraised hs] using hold
    | false =>
      cases hnext : next.isRaised with
      | false => simpa [hs, hnext] using hold
      | true =>
        simp only [hs, Bool.false_eq_true, if_false, List.nil_append] at hold
        simp only [Bool.not_false, Bool.and_self, if_true, List.mem_append, or_and_right,
          exists_or, ← or_assoc, hold]
        exact or_comm

/-- A handling comes to another stage, and nothing is announced. -/
theorem Ledger.moveTo_quiet (h : r.Ledger keyOf events counted)
    (ha : r.assignment? number = some ⟨e, stage⟩) (next : Stage)
    (hcompleted : next.isCompleted = stage.isCompleted)
    (hraised : next.isRaised = stage.isRaised) :
    (r.moveTo number next).Ledger keyOf events counted := by
  have hmoved := h.moveTo ha next hcompleted hraised.trans
  have hnone : (next.isRaised && !stage.isRaised) = false := by
    rw [hraised]
    cases stage.isRaised <;> rfl
  simp only [hnone, Bool.false_eq_true, if_false, List.append_nil] at hmoved
  exact hmoved

/-- **A success is announced**, and nothing else is. -/
theorem Ledger.announce (h : r.Ledger keyOf events counted)
    (ha : r.assignment? number = some ⟨e, .settled outcome⟩) :
    (r.announce e outcome).Ledger keyOf events counted := by
  have hnumber : e.number = number := (assignment?_eq_some ha).2
  subst hnumber
  rw [PipelineRun.announce]
  cases hs : outcome.isSuccess with
  | false => exact h.moveTo_quiet ha (.announced outcome) rfl hs
  | true =>
    have hmoved := h.moveTo ha (.announced outcome) rfl fun hcompleted => by cases hcompleted
    simp only [Stage.isRaised, hs, Bool.not_false, Bool.and_self, if_true] at hmoved
    exact hmoved

/-- **An element is completed**, which takes it out of flight, and releases the next of its
key. -/
theorem Ledger.complete (h : r.Ledger keyOf events counted)
    (ha : r.assignment? number = some ⟨e, .announced outcome⟩) :
    (r.complete e outcome).2.Ledger keyOf events counted := by
  have hnumber : e.number = number := (assignment?_eq_some ha).2
  subst hnumber
  have hmap := h.map_element_moveTo ha (.completed outcome)
  refine { h with places := fun key => ?_, carries := ?_, raised_iff := fun n hn => ?_ }
  · have hcomplete := h.carries.keyed.filter_complete e.key key
    refine List.perm_iff_count.mpr fun x => ?_
    have hplaces := (h.places key).count_eq x
    have hcount := congrArg (List.count x) hcomplete
    have hmoved := (hmap.filter (·.key = key)).count_eq x
    change _ = ((((r.released ++ (r.lanes.complete e.key).1.element?.toList) ++
      ((r.moveTo e.number (.completed outcome)).handlings counted).map Handling.element).filter
        (·.key = key)) ++ (r.lanes.complete e.key).2.queue key).count x
    simp only [List.filter_append, List.count_append] at hplaces hcount ⊢
    omega
  · obtain ⟨others, hnow, hthen⟩ :=
      h.elementsAt_moveTo ha (fun s => !s.isCompleted) (.completed outcome)
    have hflight : (r.released ++ Handling.elementsAt (fun s => !s.isCompleted)
        (r.handlings counted)).Perm (e :: (r.released ++ others)) :=
      (hnow.append_left _).trans List.perm_middle
    refine (h.carries.perm hflight).complete.perm ?_
    rw [List.append_assoc]
    refine (List.Perm.append_left _ List.perm_append_comm).trans ?_
    rw [← List.append_assoc]
    exact List.Perm.append_left _ hthen.symm
  · obtain ⟨others, hnow, hthen⟩ := h.elementsAt_moveTo ha Stage.isRaised (.completed outcome)
    exact h.raised_iff_perm (hthen.trans hnow.symm) n hn

/-- An outcome is counted, so that the handling is remembered. -/
theorem Ledger.count (h : r.Ledger keyOf events counted)
    (ha : r.assignment? number = some ⟨e, .completed outcome⟩) :
    (r.count number outcome).Ledger keyOf events (counted ++ [(e, outcome)]) := by
  obtain ⟨others, hnow, -, hthen⟩ := h.handlings_split ha
  have hperm := (hthen outcome).trans hnow.symm
  have hat := fun p => Handling.elementsAt_perm p hperm
  refine { h with places := h.places_perm ((hperm.map _).append_left _),
                  carries := h.carries.perm ((hat _).append_left _).symm,
                  raised_iff := h.raised_iff_perm (hat _),
                  processed_eq := ?_, failed_eq := ?_ }
  · have hold := h.processed_eq
    rw [List.countP_append, PipelineRun.count]
    cases hs : outcome.isSuccess <;> simp [hs, hold]
  · have hold := h.failed_eq
    rw [List.countP_append, PipelineRun.count]
    cases hs : outcome.isSuccess <;> simp [hs, hold]

/-- The outcome that is counted when the worker of an element goes on. -/
def counts? (number : Nat) (r : PipelineRun) : Option (Element × Outcome) :=
  match r.assignment? number with
  | some ⟨e, .completed outcome⟩ => some (e, outcome)
  | _ => none

theorem counts?_eq_none (h : r.assigned = []) (number : Nat) : r.counts? number = none := by
  rw [counts?, assignment?, h]
  rfl

/-- **The ledger is kept while workers go on**, in whatever order. -/
theorem Ledger.work (h : r.Ledger keyOf events counted) (number : Nat) (outcome : Outcome) :
    (r.work number outcome).Ledger keyOf events (counted ++ (r.counts? number).toList) := by
  rw [PipelineRun.work, counts?]
  cases ha : r.assignment? number with
  | none => simpa using h
  | some a =>
    obtain ⟨e, stage⟩ := a
    cases stage with
    | waiting =>
      simp only [Option.toList_none, List.append_nil]
      split
      · exact h.moveTo_quiet ha .running rfl rfl
      · exact h
    | running => simpa [settle] using h.moveTo_quiet ha (.settled outcome) rfl rfl
    | settled o => simpa using h.announce ha
    | announced o => simpa using h.complete ha
    | completed o => exact h.count ha

/-! ### Outcomes -/

/-- The element whose handler returns when the worker of an element goes on, with the outcome. -/
def settles? (number : Nat) (outcome : Outcome) (r : PipelineRun) : Option (Element × Outcome) :=
  match r.assignment? number with
  | some ⟨e, .running⟩ => some (e, outcome)
  | _ => none

theorem settles?_eq_none (h : r.assigned = []) (number : Nat) (outcome : Outcome) :
    r.settles? number outcome = none := by
  rw [settles?, assignment?, h]
  rfl

/-- The handlings have the outcome of the stage to which one of them comes. -/
theorem Ledger.outcomes_moveTo (h : r.Ledger keyOf events counted)
    (ha : r.assignment? number = some ⟨e, stage⟩) (next : Stage) :
    ((Handling.outcome? ⟨e, stage⟩).toList ++
        Handling.outcomes ((r.moveTo number next).handlings counted)).Perm
      ((Handling.outcome? ⟨e, next⟩).toList ++ Handling.outcomes (r.handlings counted)) := by
  obtain ⟨others, hnow, hthen, -⟩ := h.handlings_split ha
  have houtcomes := hnow.filterMap Handling.outcome?
  have hmoved := (hthen next).filterMap Handling.outcome?
  refine (hmoved.append_left _).trans (List.Perm.trans ?_ (houtcomes.symm.append_left _))
  change (_ ++ Handling.outcomes (_ :: others)).Perm (_ ++ Handling.outcomes (_ :: others))
  rw [Handling.outcomes_cons, Handling.outcomes_cons]
  exact List.perm_append_comm_assoc _ _ _

/-- A handling comes to another stage with the outcome that it has. -/
theorem Ledger.outcomes_moveTo_of_eq (h : r.Ledger keyOf events counted)
    (ha : r.assignment? number = some ⟨e, stage⟩) (next : Stage)
    (hnext : next.outcome? = stage.outcome?) :
    (Handling.outcomes ((r.moveTo number next).handlings counted)).Perm
      (Handling.outcomes (r.handlings counted)) := by
  have hmoved := h.outcomes_moveTo ha next
  rw [Handling.outcome?, Handling.outcome?, hnext] at hmoved
  exact (List.perm_append_left_iff _).mp hmoved

/-- **Whatever a worker does next**, the outcomes stay, also when they are counted, and one is
added if its handler returns. -/
theorem Ledger.outcomes_work (h : r.Ledger keyOf events counted) (number : Nat)
    (outcome : Outcome) :
    (Handling.outcomes ((r.work number outcome).handlings
        (counted ++ (r.counts? number).toList))).Perm
      (Handling.outcomes (r.handlings counted) ++ (r.settles? number outcome).toList) := by
  rw [PipelineRun.work, counts?, settles?]
  cases ha : r.assignment? number with
  | none => simp
  | some a =>
    obtain ⟨e, stage⟩ := a
    obtain rfl := (assignment?_eq_some ha).2
    cases stage with
    | waiting =>
      simp only [Option.toList_none, List.append_nil]
      split
      · exact h.outcomes_moveTo_of_eq ha .running rfl
      · exact .refl _
    | running =>
      simp only [Option.toList_none, List.append_nil]
      -- this is where the outcome comes from
      exact (h.outcomes_moveTo ha (.settled outcome)).trans List.perm_append_comm
    | settled o =>
      simp only [Option.toList_none, List.append_nil]
      have hmoved := h.outcomes_moveTo_of_eq ha (.announced o) rfl
      rw [PipelineRun.announce]
      split <;> exact hmoved
    | announced o =>
      simp only [Option.toList_none, List.append_nil]
      exact h.outcomes_moveTo_of_eq ha (.completed o) rfl
    | completed o =>
      obtain ⟨others, hnow, -, hthen⟩ := h.handlings_split ha
      simp only [Option.toList_some, Option.toList_none, List.append_nil]
      exact ((hthen o).trans hnow.symm).filterMap Handling.outcome?

end Assigned

/-- Only what has been dispatched has an outcome. -/
theorem outcomes_congr (h : r'.assigned = r.assigned) (counted : List (Element × Outcome)) :
    Handling.outcomes (r'.handlings counted) = Handling.outcomes (r.handlings counted) := by
  rw [handlings, handlings, h]

/-- A dispatched element has no outcome yet. -/
theorem outcomes_dispatch {e : Element} (hd : r.dispatch? = some (e, r'))
    (counted : List (Element × Outcome)) :
    Handling.outcomes (r'.handlings counted) = Handling.outcomes (r.handlings counted) := by
  rw [dispatch?] at hd
  split at hd
  · cases hd
    simp only [handlings, Handling.outcomes, List.map_append, List.append_assoc,
      List.filterMap_append]
    rfl
  · cases hd

/-- If nothing is under way, the outcomes are the counted ones. -/
theorem outcomes_eq_counted (h : r.assigned = []) (counted : List (Element × Outcome)) :
    Handling.outcomes (r.handlings counted) = counted := by
  rw [handlings, h, List.map_nil, List.nil_append, Handling.outcomes, List.filterMap_map]
  exact List.filterMap_some

/-! ### Progress -/

/-- The loop hears of a success. -/
theorem Ledger.absorb (h : r.Ledger keyOf events counted) (ha : r.absorb? = some r') :
    r'.Ledger keyOf events counted := by
  rw [absorb?] at ha
  split at ha
  · next e rest hprocessed =>
    cases ha
    refine { h with known_eq := fun n => ?_, tight := h.tight.finish e.number,
                    raised_iff := fun n hn => ?_ }
    · rw [Frontier.start_finish]
      exact h.known_eq n
    · have hold := h.raised_iff n hn
      rw [hprocessed, List.exists_mem_cons_iff] at hold
      change ((r.frontier.finish e.number).Finished n ∨ _) ↔ _
      rw [Frontier.finished_finish, or_assoc, @eq_comm _ n]
      exact hold
  · cases ha

/-- A frontier that hears of elements stays tight, and its stretch begins where it began. -/
theorem tight_foldl_finish {f : Frontier} (h : f.Tight) (l : List Element) :
    (l.foldl (fun f e => f.finish e.number) f).Tight ∧
      (l.foldl (fun f e => f.finish e.number) f).start = f.start := by
  induction l generalizing f with
  | nil => exact ⟨h, rfl⟩
  | cons e rest ih =>
    obtain ⟨htight, hstart⟩ := ih (h.finish e.number)
    exact ⟨htight, hstart.trans (f.start_finish e.number)⟩

theorem Knows.absorbAll (h : r.Knows events) : r.absorbAll.Knows events := by
  obtain ⟨htight, hstart⟩ := tight_foldl_finish h.tight r.processed
  refine ⟨fun n => ?_, htight⟩
  change _ = if Frontier.start (r.processed.foldl _ _) < n then _ else _
  rw [hstart]
  exact h.known_eq n

theorem Knows.noted (h : r.Knows events) : r.noted.Knows events := by
  refine ⟨fun n => ?_, h.tight.clear⟩
  change (r.known.above r.frontier.position).get? n = if r.frontier.position < n then _ else _
  refine Option.ext fun id => ?_
  rw [SortedMap.get?_above_eq_some_iff, h.known_eq]
  have hle := h.tight.start_le
  by_cases hn : r.frontier.position < n
  · rw [if_pos hn, if_pos (by omega)]
    exact and_iff_left hn
  · rw [if_neg hn]
    exact iff_of_false (fun hcon => hn hcon.2) nofun

/-- The event of a number is known, if it was fetched, and beyond the start of the stretch. -/
theorem Knows.exists_eq (h : r.Knows events) {n : Nat} (hlt : r.frontier.start < n)
    (hle : n ≤ events.length) : ∃ e, events[n - 1]? = some e ∧ r.known.get? n = some e.id := by
  have hget : events[n - 1]? = some events[n - 1] := List.getElem?_eq_getElem (by omega)
  refine ⟨_, hget, ?_⟩
  rw [h.known_eq, if_pos hlt, hget]
  rfl

/-- **The event at the frontier is known**, if the frontier has moved since the progress was
noted. -/
theorem Knows.reached_eq (h : r.Knows events) (hle : r.frontier.position ≤ events.length)
    (hlength : 0 < r.frontier.length) :
    ∃ e, events[r.frontier.position - 1]? = some e ∧ r.reached? = some e.id :=
  h.exists_eq (Nat.lt_of_sub_pos hlength) hle

/-- What is known of a number is the event of the number. -/
theorem Knows.getElem?_eq (h : r.Knows events) {id : Uuid} (hreached : r.reached? = some id) :
    ∃ e, events[r.frontier.position - 1]? = some e ∧ e.id = id := by
  rw [reached?, h.known_eq] at hreached
  split at hreached
  · exact Option.map_eq_some_iff.mp hreached
  · cases hreached

/-- The loop hears of all successes. -/
theorem Ledger.absorbAll (h : r.Ledger keyOf events counted) :
    r.absorbAll.Ledger keyOf events counted := by
  have hknows := h.knows.absorbAll
  refine { h with known_eq := hknows.known_eq, tight := hknows.tight,
                  raised_iff := fun n hn => ?_ }
  refine Iff.trans ?_ (h.raised_iff n hn)
  change (Frontier.Finished (r.processed.foldl _ _) n ∨ ∃ e ∈ ([] : List Element), _) ↔ _
  rw [finished_foldl_finish]
  simp

/-- The progress has been noted. -/
theorem Ledger.noted (h : r.Ledger keyOf events counted) : r.noted.Ledger keyOf events counted :=
  { h with known_eq := h.knows.noted.known_eq, tight := h.knows.noted.tight }

/-- The event at the frontier is known, if the frontier has moved since the progress was noted. -/
theorem Ledger.reached_eq (h : r.Ledger keyOf events counted) (hlength : 0 < r.frontier.length) :
    ∃ e, events[r.frontier.position - 1]? = some e ∧ r.reached? = some e.id :=
  h.knows.reached_eq h.position_le hlength

/-! ### When nothing is under way -/

/-- What was counted is what the counters say. -/
theorem Ledger.settled_eq (h : r.Ledger keyOf events counted) :
    r.stats.settled = counted.length := by
  have hboth := List.length_eq_countP_add_countP (fun c : Element × Outcome => c.2.isSuccess)
    (l := counted)
  rw [Stats.settled, h.processed_eq, h.failed_eq, hboth]
  simp

/-- **The loop finds its elements settled** when all have been counted. -/
theorem Ledger.isSettled_iff (h : r.Ledger keyOf events counted) :
    r.isSettled = true ↔ counted.length = events.length := by
  have hle := h.subperm.length_le
  simp only [handlings, List.length_append, List.length_map, length_numbered] at hle
  rw [isSettled, decide_eq_true_iff, h.fetched_eq, h.settled_eq]
  omega

/-- **All elements have been counted** if as many have been counted as were fetched. -/
theorem Ledger.of_length_eq (h : r.Ledger keyOf events counted)
    (hlength : counted.length = events.length) :
    r.released = [] ∧ r.assigned = [] ∧ (counted.map (·.1)).Perm (numbered keyOf events) := by
  have hle := h.subperm.length_le
  simp only [handlings, List.length_append, List.length_map, length_numbered] at hle
  have hreleased : r.released = [] := List.length_eq_zero_iff.mp (by omega)
  have hassigned : r.assigned = [] := List.length_eq_zero_iff.mp (by omega)
  refine ⟨hreleased, hassigned, List.Subperm.perm_of_length_le ?_ (by simp [hlength])⟩
  have hsub := h.subperm
  rw [handlings, hreleased, hassigned] at hsub
  simpa [Function.comp_def] using hsub

/-- **All elements have been counted** if none is released or dispatched: then none waits. -/
theorem Ledger.counted_perm (h : r.Ledger keyOf events counted) (hreleased : r.released = [])
    (hassigned : r.assigned = []) : (counted.map (·.1)).Perm (numbered keyOf events) := by
  have hhandlings : r.handlings counted = counted.map fun c => ⟨c.1, .completed c.2⟩ := by
    rw [handlings, hassigned]
    rfl
  have hflight : Handling.elementsAt (fun s => !s.isCompleted) (r.handlings counted) = [] := by
    rw [hhandlings, Handling.elementsAt, List.map_eq_nil_iff, List.filter_eq_nil_iff]
    intro x hx
    obtain ⟨c, -, rfl⟩ := List.mem_map.mp hx
    simp [Stage.isCompleted]
  have hcarries := h.carries
  rw [hreleased, hflight] at hcarries
  have hplaces : ∀ key, ((counted.map (·.1)).filter (Element.key · = key)).Perm
      ((numbered keyOf events).filter (Element.key · = key)) := by
    intro key
    have hkey := h.places key
    rw [hreleased, hhandlings, Lanes.queue_eq_nil_of_isIdle hcarries.isIdle, List.append_nil,
      List.nil_append, List.map_map] at hkey
    exact hkey.symm
  exact perm_of_forall_filter hplaces

/-- **What has finished are the counted successes**, if the loop has heard of all. -/
theorem Ledger.finished_iff (h : r.Ledger keyOf events counted) (hassigned : r.assigned = [])
    (hprocessed : r.processed = []) {n : Nat} (hn : 0 < n) :
    r.frontier.Finished n ↔ ∃ c ∈ counted, c.2.isSuccess = true ∧ c.1.number = n := by
  have hraised := h.raised_iff n hn
  rw [hprocessed] at hraised
  refine (or_iff_left nofun).symm.trans (hraised.trans ?_)
  simp only [Handling.mem_elementsAt_iff, handlings, hassigned]
  constructor
  · rintro ⟨e, ⟨stage, hmem, hs⟩, hnumber⟩
    obtain ⟨c, hc, heq⟩ := List.mem_map.mp hmem
    cases heq
    exact ⟨c, hc, hs, hnumber⟩
  · rintro ⟨c, hc, hs, hnumber⟩
    exact ⟨c.1, ⟨_, List.mem_map_of_mem hc, hs⟩, hnumber⟩

end PipelineRun

end EventJournal
