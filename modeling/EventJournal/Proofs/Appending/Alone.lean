import EventJournal.Proofs.Appending.Clients

/-!
# An append that nothing runs beside

An append is alone if no other call comes between its calls. It then ends within six steps,
in one of five ways (`EventJournal.Append.Alone`):

| the batch | the append | the store |
|---|---|---|
| is refused | fails | stays |
| has no events | succeeds | stays |
| expects another version | fails | stays |
| has an identifier that is in use, or comes after the last position | fails | keeps the claim |
| is none of these | succeeds | gains the batch |

In the fourth case the head has been moved when the batch turns out not to fit in, and nobody
moves it back. The events and their counter stay, so from then on the head counts events that
there are not, until the next batch goes to the place after them.
-/

namespace EventJournal

namespace Batch

/-- The versions of the batch are there to be claimed. -/
structure Claimable (b : Batch) (s : Store) : Prop where
  /-- The batch is accepted. -/
  accepted : b.refusal? = none
  /-- It has events. -/
  nonempty : b.drafts ≠ []
  /-- The stream is where the writer has seen it. -/
  version_eq : s.version b.stream = b.expected

/-- The events of the batch fit in among those that there are. -/
structure Storable (b : Batch) (s : Store) : Prop where
  /-- No two events have the same identifier. -/
  nodup : b.ids.Nodup
  /-- No identifier is in use. -/
  unused : ∀ e ∈ s.events.toList, e.id ∉ b.ids
  /-- There is a position after the last. -/
  counter_lt : s.counter Sequence.events < Text.maxWord

/-- The kind of the stream when the batch is there: the one that it has, or the one that the writer
names. -/
def kindIn (b : Batch) (s : Store) : String :=
  ((s.heads.get? b.stream).map (·.kind)).getD b.kind

/-- **The batch claims its versions and is not stored.** -/
def Lost (b : Batch) (s : Store) : Prop := b.Claimable s ∧ ¬b.Storable s

end Batch

namespace Append

/-! ### Steps in a row -/

/-- Alone, the append ends within `fuel` steps, with the result `r` and the store `s'`. -/
def Ends (b : Batch) (fuel : Nat) (a : Append) (s : Store) (r : Except LogError (List Event))
    (s' : Store) : Prop :=
  ∃ warnings, Progress.runAlone (next b) fuel a s = some (r, warnings, s')

section Ends

variable {b : Batch} {fuel : Nat} {a : Append} {s s' : Store}
  {r : Except LogError (List Event)}

theorem ends_of_result? (h : (a.next b).result? = some r) : Ends b (fuel + 1) a s r s :=
  Progress.ends_of_result? h

theorem ends_of_step (hlive : (a.next b).result? = none)
    (h : Ends b fuel ((a.next b).step none a s).1 ((a.next b).step none a s).2 r s') :
    Ends b (fuel + 1) a s r s' :=
  (Progress.ends_succ_of_none hlive).mpr h

/-- **A step at a time**: whatever a step of the append can be, it ends well from there on. -/
theorem ends_of_forall_step (hs : s.Ordered) (hh : s.HeadsInPlace) (ha : a.Sound b)
    (hlive : (a.next b).result? = none) {P : Except LogError (List Event) → Store → Prop}
    (h : ∀ a' s', Step b a s a' s' → a'.Sound b →
      ∃ r s'', Ends b fuel a' s' r s'' ∧ P r s'') :
    ∃ r s', Ends b (fuel + 1) a s r s' ∧ P r s' := by
  have hstep := step_next hs hh ha
  obtain ⟨r, s', hends, hP⟩ := h _ _ hstep (hstep.sound ha)
  exact ⟨r, s', ends_of_step hlive hends, hP⟩

end Ends

/-! ### The commit -/

/-- **A commit that nothing comes between** stores the batch if it fits in. -/
theorem ends_committing {b : Batch} {s : Store} (hs : s.Ordered) (hh : s.HeadsInPlace)
    (ha : Sound b (.committing .start)) (fuel : Nat)
    (hfree : ∀ e ∈ s.events.toList, e.stream = b.stream → e.index < b.expected ∨
      b.version ≤ e.index) :
    ∃ r s', Ends b (fuel + 3) (.committing .start) s r s' ∧
      (b.Storable s ∧ r = .ok (b.placed (s.counter Sequence.events + 1)) ∧
          s.Gains (b.placed (s.counter Sequence.events + 1)) s' ∨
        ¬b.Storable s ∧ (∃ err, r = .error (.store err)) ∧ s'.Agrees s) := by
  refine ends_of_forall_step hs hh ha rfl fun a' s' hstep ha' => ?_
  cases hstep with
  | rests hresult => exact nomatch hresult
  | readsLast hlast =>
    exact ⟨_, s, ends_of_result? rfl, Or.inr ⟨fun h => hlast h.counter_lt, ⟨_, rfl⟩, .refl s⟩⟩
  | reads hlt =>
    have hok := Store.commitEvents_ok_iff hs (ha.nonempty nofun) rfl hfree
    refine ends_of_forall_step hs hh ha' rfl fun a'' s'' hstep' _ => ?_
    cases hstep' with
    | rests hresult => exact nomatch hresult
    | commitsLate hne => exact absurd rfl hne
    | commits _ hstored hgains =>
      obtain ⟨hnodup, hunused⟩ := hok.mp hstored
      exact ⟨_, s'', ends_of_result? rfl, Or.inl ⟨⟨hnodup, hunused, hlt⟩, rfl, hgains⟩⟩
    | clashes _ herr hagrees =>
      refine ⟨_, s'', ends_of_result? rfl, Or.inr ⟨fun h => ?_, ⟨_, rfl⟩, hagrees⟩⟩
      exact nomatch herr.symm.trans (hok.mpr ⟨h.nodup, h.unused⟩)

/-! ### The append -/

/-- **What comes of an append that nothing runs beside.** -/
inductive Alone (b : Batch) (s : Store) : Except LogError (List Event) → Store → Prop
  /-- The batch is refused. -/
  | refused {refusal} : b.refusal? = some refusal → Alone b s (.error (.invalid refusal)) s
  /-- There is nothing to append. -/
  | empty : b.refusal? = none → b.drafts = [] → Alone b s (.ok []) s
  /-- The stream is not where it was expected. -/
  | late : b.refusal? = none → b.drafts ≠ [] → s.version b.stream ≠ b.expected →
    Alone b s (.error (.concurrency b.stream b.version)) s
  /-- The batch is stored. -/
  | stored {head s'} : b.Claimable s → b.Storable s → head.stream = b.stream →
    head.version = b.version →
    (s.withHead head).Gains (b.placed (s.counter Sequence.events + 1)) s' →
    head.kind = b.kindIn s → Alone b s (.ok (b.placed (s.counter Sequence.events + 1))) s'
  /-- The batch is lost. -/
  | lost {head err s'} : b.Lost s → head.stream = b.stream → head.version = b.version →
    s'.Agrees (s.withHead head) → head.kind = b.kindIn s → Alone b s (.error (.store err)) s'

/-- An append that has claimed its versions, and is alone from there on. -/
theorem alone_of_claim {b : Batch} {s : Store} (hs : s.Bounded) (hb : b.Claimable s)
    {head : Head} (hstream : head.stream = b.stream) (hversion : head.version = b.version)
    (hkind : head.kind = b.kindIn s) (ha : Sound b (.committing .start)) (fuel : Nat) :
    ∃ r s', Ends b (fuel + 3) (.committing .start) (s.withHead head) r s' ∧ Alone b s r s' := by
  have hlt := Batch.expected_lt_version hb.nonempty
  obtain ⟨r, s', hends, ⟨hstorable, rfl, hgains⟩ | ⟨hnot, ⟨err, rfl⟩, hagrees⟩⟩ :=
    ends_committing (hs.ordered.withHead head) (hs.inPlace.withHead (by omega)) ha fuel
      fun e he hst => Or.inl (by
        have := hs.index_lt e he
        rwa [hst, hb.version_eq] at this)
  · exact ⟨_, s', hends, .stored hb ⟨hstorable.nodup, hstorable.unused, hstorable.counter_lt⟩
      hstream hversion hgains hkind⟩
  · exact ⟨_, s', hends, .lost ⟨hb, fun h => hnot ⟨h.nodup, h.unused, h.counter_lt⟩⟩
      hstream hversion hagrees hkind⟩

/-- **An append that nothing runs beside ends**, in one of these ways. -/
theorem ends_alone {b : Batch} {s : Store} (hs : s.Bounded) (fuel : Nat) :
    ∃ r s', Ends b (fuel + 6) (start b) s r s' ∧ Alone b s r s' := by
  have hsound := sound_start b
  unfold start at hsound ⊢
  split at hsound
  · next refusal hrefusal => exact ⟨_, s, ends_of_result? rfl, .refused hrefusal⟩
  · next hrefusal =>
    split at hsound
    · next hempty =>
      rw [if_pos hempty]
      exact ⟨_, s, ends_of_result? rfl, .empty hrefusal (List.isEmpty_iff.mp hempty)⟩
    · next hempty =>
      rw [if_neg hempty]
      have hds : b.drafts ≠ [] := fun hnil => hempty (List.isEmpty_iff.mpr hnil)
      -- two steps to the claim or the conflict, of which those that come too late cannot be
      refine ends_of_forall_step hs.ordered hs.inPlace hsound rfl fun a₁ s₁ hstep₁ hsound₁ => ?_
      cases hstep₁ with
      | rests hresult => exact nomatch hresult
      | findsOther hne =>
        refine ends_of_forall_step hs.ordered hs.inPlace hsound₁ rfl fun a₂ s₂ hstep₂ _ => ?_
        cases hstep₂ with
        | rests hresult => exact nomatch hresult
        | reports => exact ⟨_, s, ends_of_result? rfl, .late hrefusal hds hne⟩
      | findsNone hget hexpected =>
        have hb : b.Claimable s :=
          ⟨hrefusal, hds, by rw [Store.version_of_get?_none hget, hexpected]⟩
        refine ends_of_forall_step hs.ordered hs.inPlace hsound₁ rfl fun a₂ s₂ hstep₂ hsound₂ => ?_
        cases hstep₂ with
        | rests hresult => exact nomatch hresult
        | createsLate hget' => exact nomatch hget.symm.trans hget'
        | creates =>
          exact alone_of_claim hs hb rfl rfl (by rw [Batch.kindIn, hget]; rfl) hsound₂ (fuel + 1)
      | findsHead hget hversion =>
        have hb : b.Claimable s :=
          ⟨hrefusal, hds, by rw [Store.version_of_get? hget, hversion]⟩
        refine ends_of_forall_step hs.ordered hs.inPlace hsound₁ rfl fun a₂ s₂ hstep₂ hsound₂ => ?_
        cases hstep₂ with
        | rests hresult => exact nomatch hresult
        | movesLate hne => exact absurd hversion (hne _ hget)
        | @moves _ head hget' _ hstream =>
          exact @alone_of_claim b s hs hb { head with version := b.version } hstream rfl
            (by rw [Batch.kindIn, hget']; rfl) hsound₂ (fuel + 1)

theorem Alone.bounded {b : Batch} {s s' : Store} {r : Except LogError (List Event)}
    (h : Alone b s r s') (hs : s.Bounded) : s'.Bounded := by
  cases h with
  | refused | empty | late => exact hs
  | @lost head err _ hlost hstream hversion hagrees =>
    have hlt := Batch.expected_lt_version hlost.1.nonempty
    refine ⟨hagrees.ordered (hs.ordered.withHead head),
      (hs.inPlace.withHead (by omega)).congr hagrees.heads, fun e he => ?_⟩
    rw [hagrees.events.toList] at he
    have hindex := hs.index_lt e he
    rw [Store.version_congr hagrees.heads, Store.version_withHead]
    split
    · next hst =>
      rw [hst, hstream, hlost.1.version_eq] at hindex
      omega
    · exact hindex
  | @stored head _ hb _ hstream hversion hgains =>
    have hlt := Batch.expected_lt_version hb.nonempty
    refine ⟨hgains.ordered, (hs.inPlace.withHead (by omega)).congr hgains.heads, fun e he => ?_⟩
    rw [Store.version_congr hgains.heads, Store.version_withHead]
    rcases (hgains.mem_iff e).mp he with he | he
    · have hindex := hs.index_lt e he
      split
      · next hst =>
        rw [hst, hstream, hb.version_eq] at hindex
        omega
      · exact hindex
    · obtain ⟨hst, -, hindex⟩ := Batch.exists_mem_placed_iff.mp ⟨e, he, rfl, rfl⟩
      rw [if_pos (hst.symm.trans hstream.symm), hversion]
      exact hindex

end Append

/-! ### Heads that count the events -/

/-- **The head of a stream counts its events**: the version is one more than the last index, or
zero if there are no events. -/
def Store.HeadExact (s : Store) (stream : Uuid) : Prop :=
  ∀ n, n < s.version stream ↔ ∃ e ∈ s.events.toList, e.stream = stream ∧ n ≤ e.index

namespace Append

section HeadExact

variable {b : Batch} {s s' : Store} {r : Except LogError (List Event)} {stream : Uuid}

/-- An append that does not claim leaves the heads as exact as they are. -/
theorem Alone.headExact_of_not_claimable (h : Alone b s r s') (hb : ¬b.Claimable s) :
    s'.HeadExact stream ↔ s.HeadExact stream := by
  cases h with
  | refused | empty | late => exact Iff.rfl
  | stored hclaimable => exact absurd hclaimable hb
  | lost hlost => exact absurd hlost.1 hb

/-- **A batch that is lost leaves the head behind**, ahead of the events. -/
theorem Alone.not_headExact_of_lost (h : Alone b s r s') (hs : s.Bounded) (hb : b.Lost s) :
    ¬s'.HeadExact b.stream := by
  have hlt := Batch.expected_lt_version hb.1.nonempty
  cases h with
  | refused hrefusal => exact nomatch hrefusal.symm.trans hb.1.accepted
  | empty _ hnil => exact absurd hnil hb.1.nonempty
  | late _ _ hne => exact absurd hb.1.version_eq hne
  | stored _ hstorable => exact absurd hstorable hb.2
  | @lost head err _ _ hstream hversion hagrees =>
    intro hexact
    have hv : s'.version b.stream = b.version := by
      rw [Store.version_congr hagrees.heads, Store.version_withHead, if_pos hstream.symm, hversion]
    -- an event at the first version of the batch would have been there before
    obtain ⟨e, he, hst, hle⟩ := (hexact b.expected).mp (by omega)
    rw [hagrees.events.toList] at he
    have hindex := hs.index_lt e he
    rw [hst, hb.1.version_eq] at hindex
    omega

/-- **A batch that is stored makes the head exact**, whatever was lost before. -/
theorem Alone.headExact_of_storable (h : Alone b s r s') (hs : s.Bounded)
    (hb : b.Claimable s) (hstorable : b.Storable s) : s'.HeadExact b.stream := by
  have hlt := Batch.expected_lt_version hb.nonempty
  cases h with
  | refused hrefusal => exact nomatch hrefusal.symm.trans hb.accepted
  | empty _ hnil => exact absurd hnil hb.nonempty
  | late _ _ hne => exact absurd hb.version_eq hne
  | lost hlost => exact absurd hstorable hlost.2
  | @stored head _ _ _ hstream hversion hgains =>
    intro n
    rw [Store.version_congr hgains.heads, Store.version_withHead, if_pos hstream.symm, hversion]
    constructor
    · intro hn
      obtain ⟨e, he, hst, hindex⟩ := (Batch.exists_mem_placed_iff (b := b) (n := b.version - 1)).mpr
        ⟨rfl, by omega, by omega⟩
      exact ⟨e, (hgains.mem_iff e).mpr (Or.inr he), hst, by omega⟩
    · rintro ⟨e, he, hst, hle⟩
      rcases (hgains.mem_iff e).mp he with he | he
      · have hindex := hs.index_lt e he
        rw [hst, hb.version_eq] at hindex
        omega
      · obtain ⟨-, -, hindex⟩ := Batch.exists_mem_placed_iff.mp ⟨e, he, hst, rfl⟩
        omega

/-- The heads of other streams stay as exact as they are. -/
theorem Alone.headExact_of_ne (h : Alone b s r s') (hne : stream ≠ b.stream) :
    s'.HeadExact stream ↔ s.HeadExact stream := by
  have hcongr : s'.version stream = s.version stream →
      (∀ e, e.stream = stream → (e ∈ s'.events.toList ↔ e ∈ s.events.toList)) →
      (s'.HeadExact stream ↔ s.HeadExact stream) := fun hv hmem => by
    rw [Store.HeadExact]
    rw [hv]
    exact forall_congr' fun n => iff_congr Iff.rfl (exists_congr fun e =>
      and_congr_left fun hst => hmem e hst.1)
  cases h with
  | refused | empty | late => exact Iff.rfl
  | @lost head err _ _ hstream hversion hagrees =>
    refine hcongr ?_ fun e _ => by rw [hagrees.events.toList]; exact Iff.rfl
    rw [Store.version_congr hagrees.heads, Store.version_withHead, if_neg (hstream ▸ hne)]
  | @stored head _ _ _ hstream hversion hgains =>
    refine hcongr ?_ fun e hst => (hgains.mem_iff e).trans (or_iff_left fun he => hne ?_)
    · rw [Store.version_congr hgains.heads, Store.version_withHead, if_neg (hstream ▸ hne)]
    · exact hst.symm.trans (Batch.exists_mem_placed_iff.mp ⟨e, he, rfl, rfl⟩).1.symm

end HeadExact

/-! ### One append after another -/

/-- The store after an append that nothing runs beside. -/
def after (b : Batch) (s : Store) : Store :=
  ((Progress.runAlone (next b) 6 (start b) s).map fun r => r.2.2).getD s

/-- The store after appends that did not overlap, the latest standing first. -/
def afterAll : (history : List Batch) → Store
  | [] => .empty
  | b :: earlier => after b (afterAll earlier)

/-- **The last claim of the stream was lost.** -/
def LastLost (stream : Uuid) : (history : List Batch) → Prop
  | [] => False
  | b :: earlier =>
    if b.stream = stream then
      b.Lost (afterAll earlier) ∨ ¬b.Claimable (afterAll earlier) ∧ LastLost stream earlier
    else LastLost stream earlier

theorem ends_after {b : Batch} {s : Store} (hs : s.Bounded) :
    ∃ r, Ends b 6 (start b) s r (after b s) ∧ Alone b s r (after b s) := by
  obtain ⟨r, s', hends, halone⟩ := ends_alone (b := b) hs 0
  obtain ⟨warnings, hrun⟩ := id hends
  have heq : after b s = s' := by
    rw [after, hrun]
    rfl
  rw [heq]
  exact ⟨r, hends, halone⟩

theorem alone_after {b : Batch} {s : Store} (hs : s.Bounded) : ∃ r, Alone b s r (after b s) := by
  obtain ⟨r, -, halone⟩ := ends_after (b := b) hs
  exact ⟨r, halone⟩

theorem bounded_afterAll (history : List Batch) : (afterAll history).Bounded := by
  induction history with
  | nil => exact Store.bounded_empty
  | cons b earlier ih =>
    obtain ⟨r, halone⟩ := alone_after ih
    exact halone.bounded ih

/-- **After any sequence of appends a head is exact** unless the last claim was lost. -/
theorem headExact_afterAll_iff (history : List Batch) (stream : Uuid) :
    (afterAll history).HeadExact stream ↔ ¬LastLost stream history := by
  induction history with
  | nil =>
    refine iff_of_true (fun n => ⟨fun hn => absurd hn (Nat.not_lt_zero n), ?_⟩) id
    rintro ⟨e, he, -⟩
    exact nomatch he
  | cons b earlier ih =>
    have hs := bounded_afterAll earlier
    obtain ⟨r, halone⟩ := alone_after (b := b) hs
    rw [LastLost]
    split
    · next hst =>
      subst hst
      by_cases hb : b.Claimable (afterAll earlier)
      · by_cases hstorable : b.Storable (afterAll earlier)
        · refine iff_of_true (halone.headExact_of_storable hs hb hstorable) ?_
          rintro (hlost | ⟨hnot, -⟩)
          · exact hlost.2 hstorable
          · exact hnot hb
        · have hlost : b.Lost (afterAll earlier) := ⟨hb, hstorable⟩
          exact iff_of_false (halone.not_headExact_of_lost hs hlost) fun hnot =>
            hnot (Or.inl hlost)
      · rw [afterAll, halone.headExact_of_not_claimable hb, ih]
        refine not_congr ⟨fun hlast => Or.inr ⟨hb, hlast⟩, ?_⟩
        rintro (hlost | ⟨-, hlast⟩)
        · exact absurd hlost.1 hb
        · exact hlast
    · next hst => rw [afterAll, halone.headExact_of_ne (Ne.symm hst), ih]

/-! ### Failures -/

/-- What a failed append leaves of the store as it was. -/
theorem Alone.of_error {b : Batch} {s s' : Store} {e : LogError} (h : Alone b s (.error e) s') :
    (¬b.Lost s → s' = s) ∧ (b.Lost s → (∃ err, e = .store err) ∧
      s'.events.toList = s.events.toList ∧ s'.counters = s.counters ∧
      s'.version b.stream = b.version ∧
      ∀ stream, stream ≠ b.stream → s'.heads.get? stream = s.heads.get? stream) := by
  cases h with
  | refused hrefusal =>
    exact ⟨fun _ => rfl, fun hlost => nomatch hrefusal.symm.trans hlost.1.accepted⟩
  | late _ _ hne => exact ⟨fun _ => rfl, fun hlost => absurd hlost.1.version_eq hne⟩
  | @lost head err _ hlost hstream hversion hagrees =>
    refine ⟨fun hnot => absurd hlost hnot, fun _ => ⟨⟨_, rfl⟩, hagrees.events.toList,
      hagrees.counters, ?_, fun stream hne => ?_⟩⟩
    · rw [Store.version_congr hagrees.heads, Store.version_withHead, if_pos hstream.symm, hversion]
    · rw [hagrees.heads, Store.withHead]
      exact SortedMap.get?_insert_of_ne _ (hstream ▸ hne) _

/-- **An append that fails changes nothing unless its batch is lost.** Whatever the log was
asked before, and however far it has come with it, an append that nothing runs beside ends.
If it fails, the store is as it was; only if it has claimed its versions, and an identifier of
its batch is in use or occurs twice, or there is no position left, the head has moved to the
version after the batch, with no events to go with it.

If nothing has ever run beside an append, a head is therefore exact just as long as the last
claim of its stream was not lost. -/
theorem failed_append (requests : List LogRequest) (schedule : List Nat) (b : Batch)
    (fuel : Nat) (history : List Batch) (stream : Uuid) :
    let s := (Interleaving.run Client.next schedule ⟨.empty, requests.map Client.start⟩).store
    (∃ r warnings s', Progress.runAlone (next b) (fuel + 6) (start b) s = some (r, warnings, s') ∧
      ((∃ e, r = .error e) → ¬b.Lost s → s' = s) ∧
      (b.Lost s → (∃ err, r = .error (.store err)) ∧
        s'.events.toList = s.events.toList ∧ s'.counters = s.counters ∧
        s.version b.stream < s'.version b.stream ∧ s'.version b.stream = b.version ∧
        ∀ other, other ≠ b.stream → s'.heads.get? other = s.heads.get? other)) ∧
    ((afterAll history).HeadExact stream ↔ ¬LastLost stream history) := by
  intro s
  refine ⟨?_, headExact_afterAll_iff history stream⟩
  obtain ⟨r, s', ⟨warnings, hrun⟩, halone⟩ :=
    ends_alone (b := b) (Interleaving.bounded_run requests schedule) fuel
  refine ⟨r, warnings, s', hrun, ?_, fun hlost => ?_⟩
  · rintro ⟨e, rfl⟩
    exact halone.of_error.1
  · have hlt := Batch.expected_lt_version hlost.1.nonempty
    cases r with
    | ok events =>
      cases halone with
      | empty _ hnil => exact absurd hnil hlost.1.nonempty
      | stored _ hstorable => exact absurd hstorable hlost.2
    | error e =>
      obtain ⟨⟨err, rfl⟩, hevents, hcounters, hversion, hheads⟩ := halone.of_error.2 hlost
      refine ⟨⟨err, rfl⟩, hevents, hcounters, ?_, hversion, hheads⟩
      rw [hversion, hlost.1.version_eq]
      exact hlt

/-- A batch in which an identifier occurs twice fails on a new log, and leaves a head that
counts two events where there are none. -/
theorem failed_append_twice :
    let b := Batch.ofNumbers 1 0 [10, 10]
    (Progress.runAlone (next b) 6 (start b) .empty).map (·.1) =
        some (.error (.store (.duplicate "event" (Uuid.ofNat 10).text))) ∧
      (after b .empty).version (.ofNat 1) = 2 ∧ (after b .empty).events.toList = [] ∧
      ¬(after b .empty).HeadExact (.ofNat 1) := by
  intro b
  have hnil : (after b .empty).events.toList = [] := by decide
  refine ⟨by decide, by decide, hnil, fun hexact => ?_⟩
  obtain ⟨e, he, -⟩ := (hexact 0).mp (by decide)
  rw [hnil] at he
  exact nomatch he

end Append

end EventJournal
