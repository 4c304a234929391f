import EventJournal.Log.Append
import EventJournal.Proofs.Interleaving
import EventJournal.Proofs.Store

/-!
# One writer

A writer appends a batch to its stream. It first finds the head and claims the versions of
its batch on it, in two calls between which other writers may come; then it reads the counter
and commits the batch, as often as others commit first.

`EventJournal.Append.Step` lists what a step of an append can be, each with what it finds in
the store and what it does to it, and `EventJournal.Append.step_next` says that the list is
complete. Nothing after it looks into the procedure again.

| a step that | leads to | and the store |
|---|---|---|
| finds the head | the claim, or the conflict | stays |
| claims | the commit | gets another head |
| comes too late to claim | the conflict | stays |
| commits | the end | gains the batch |
| commits too late | the next attempt | stays |
| commits a batch that clashes | the end | agrees with what it was |
-/

namespace EventJournal

/-! ### Versions -/

namespace Store

/-- The version of a stream; a stream without a head has none of its events. -/
def version (s : Store) (stream : Uuid) : Nat := ((s.heads.get? stream).map (·.version)).getD 0

/-- The store with another head. -/
def withHead (s : Store) (head : Head) : Store :=
  { s with heads := s.heads.insert head.stream head }

theorem version_of_get? {s : Store} {stream : Uuid} {head : Head}
    (h : s.heads.get? stream = some head) : s.version stream = head.version := by
  rw [version, h]
  rfl

theorem version_of_get?_none {s : Store} {stream : Uuid} (h : s.heads.get? stream = none) :
    s.version stream = 0 := by
  rw [version, h]
  rfl

theorem version_congr {s s' : Store} (h : s'.heads = s.heads) : s'.version = s.version := by
  funext stream
  rw [version, version, h]

theorem version_withHead (s : Store) (head : Head) (stream : Uuid) :
    (s.withHead head).version stream =
      if stream = head.stream then head.version else s.version stream := by
  unfold version withHead
  rw [SortedMap.get?_insert]
  split <;> rfl

theorem insertHead_of_none {s : Store} {head : Head} (h : s.heads.get? head.stream = none) :
    s.insertHead head = (true, s.withHead head) := by
  rw [insertHead, SortedMap.contains_eq_false_iff.mpr h]
  rfl

theorem insertHead_of_some {s : Store} {head other : Head}
    (h : s.heads.get? head.stream = some other) : s.insertHead head = (false, s) := by
  rw [insertHead, SortedMap.contains_eq_true_iff.mpr ⟨other, h⟩]
  rfl

theorem advanceHead_of_version {s : Store} {stream : Uuid} {head : Head} {expected : Nat}
    (h : s.heads.get? stream = some head) (hstream : head.stream = stream)
    (hversion : head.version = expected) (version : Nat) :
    s.advanceHead stream expected version = (true, s.withHead { head with version }) := by
  subst hstream
  simp only [advanceHead, h]
  rw [if_pos hversion, withHead]

theorem advanceHead_of_ne {s : Store} {stream : Uuid} {expected : Nat}
    (h : ∀ head, s.heads.get? stream = some head → head.version ≠ expected) (version : Nat) :
    s.advanceHead stream expected version = (false, s) := by
  rw [advanceHead]
  split
  · next head hget => exact if_neg (h head hget)
  · rfl

/-- A head is of no concern to the events. -/
theorem Ordered.withHead {s : Store} (h : s.Ordered) (head : Head) : (s.withHead head).Ordered :=
  ⟨h.coherent, h.position_iff⟩

/-- **The heads stand at their streams**, and none is made before there is a version to count. -/
structure HeadsInPlace (s : Store) : Prop where
  /-- The stream of a head. -/
  stream_eq : ∀ stream head, s.heads.get? stream = some head → head.stream = stream
  /-- The version of a head. -/
  version_pos : ∀ stream head, s.heads.get? stream = some head → 0 < head.version

theorem headsInPlace_empty : empty.HeadsInPlace := ⟨nofun, nofun⟩

theorem HeadsInPlace.congr {s s' : Store} (h : s.HeadsInPlace) (heq : s'.heads = s.heads) :
    s'.HeadsInPlace :=
  ⟨fun stream head => heq ▸ h.stream_eq stream head,
    fun stream head => heq ▸ h.version_pos stream head⟩

theorem HeadsInPlace.withHead {s : Store} (h : s.HeadsInPlace) {head : Head}
    (hpos : 0 < head.version) : (s.withHead head).HeadsInPlace := by
  refine ⟨fun stream other hget => ?_, fun stream other hget => ?_⟩
  all_goals
    simp only [Store.withHead] at hget
    rw [SortedMap.get?_insert] at hget
    split at hget
  · next heq => exact Option.some.inj hget ▸ heq.symm
  · exact h.stream_eq stream other hget
  · exact Option.some.inj hget ▸ hpos
  · exact h.version_pos stream other hget

end Store

namespace Batch

/-- The identifiers of the events of a batch. -/
def ids (b : Batch) : List Uuid := b.drafts.map (·.id)

/-- A batch of events that have nothing to tell, by the numbers of its stream and of their
identifiers. -/
def ofNumbers (stream expected : Nat) (ids : List Nat) : Batch where
  stream := .ofNat stream
  expected := expected
  drafts := ids.map fun n => .ofBytes (.ofNat n) .epoch "a" []
  kind := defaultKind

@[simp] theorem length_placed (b : Batch) (first : Nat) :
    (b.placed first).length = b.drafts.length :=
  Draft.length_placeAll _ _ _ _

theorem mem_placed_iff {b : Batch} {first : Nat} {e : Event} :
    e ∈ b.placed first ↔
      ∃ k, ∃ h : k < b.drafts.length,
        b.drafts[k].place b.stream (b.expected + k) (first + k) = e :=
  Draft.mem_placeAll_iff

/-- The places that the events of a batch take in their stream. -/
theorem exists_mem_placed_iff {b : Batch} {first : Nat} {stream : Uuid} {n : Nat} :
    (∃ e ∈ b.placed first, e.stream = stream ∧ e.index = n) ↔
      b.stream = stream ∧ b.expected ≤ n ∧ n < b.version := by
  rw [version]
  constructor
  · rintro ⟨e, he, rfl, rfl⟩
    obtain ⟨k, hk, rfl⟩ := mem_placed_iff.mp he
    refine ⟨rfl, ?_⟩
    simp only [Draft.place]
    omega
  · rintro ⟨rfl, hle, hlt⟩
    refine ⟨_, mem_placed_iff.mpr ⟨n - b.expected, by omega, rfl⟩, rfl, ?_⟩
    simp only [Draft.place]
    omega

theorem expected_lt_version {b : Batch} (h : b.drafts ≠ []) : b.expected < b.version := by
  have := List.length_pos_of_ne_nil h
  rw [version]
  omega

end Batch

/-! ### Steps -/

namespace Append

/-- **What a step of an append can be.** -/
inductive Step (b : Batch) : Append → Store → Append → Store → Prop
  /-- There is no head, and none was expected. -/
  | findsNone {s} : s.heads.get? b.stream = none → b.expected = 0 →
    Step b .findingHead s .creatingHead s
  /-- The head is where it was expected. -/
  | findsHead {s head} : s.heads.get? b.stream = some head → head.version = b.expected →
    0 < head.version → Step b .findingHead s .movingHead s
  /-- The stream is not where it was expected. -/
  | findsOther {s} : s.version b.stream ≠ b.expected → Step b .findingHead s .conflicting s
  /-- The versions are claimed on a new head. -/
  | creates {s} : s.heads.get? b.stream = none →
    Step b .creatingHead s (.committing .start) (s.withHead ⟨b.stream, b.version, b.kind⟩)
  /-- Another writer has made the head. -/
  | createsLate {s head} : s.heads.get? b.stream = some head →
    Step b .creatingHead s .conflicting s
  /-- The versions are claimed on the head. -/
  | moves {s head} : s.heads.get? b.stream = some head → head.version = b.expected →
    head.stream = b.stream →
    Step b .movingHead s (.committing .start) (s.withHead { head with version := b.version })
  /-- Another writer has moved the head. -/
  | movesLate {s} : (∀ head, s.heads.get? b.stream = some head → head.version ≠ b.expected) →
    Step b .movingHead s .conflicting s
  /-- The conflict is reported. -/
  | reports {s} : Step b .conflicting s (.done (.error (.concurrency b.stream b.version))) s
  /-- The counter is read. -/
  | reads {s tried} : s.counter Sequence.events < Text.maxWord →
    Step b (.committing (.reading tried)) s
      (.committing (.storing tried (s.counter Sequence.events + 1))) s
  /-- The counter is read, and there is no number after it. -/
  | readsLast {s tried} : ¬s.counter Sequence.events < Text.maxWord →
    Step b (.committing (.reading tried)) s
      (.committing (.done (.error (.outOfRange "sequence" (s.counter Sequence.events))))) s
  /-- The batch is committed. -/
  | commits {s tried first s'} : s.counter Sequence.events + 1 = first →
    (s.commitEvents Sequence.events (b.placed first)).1 = .ok true →
    s.Gains (b.placed first) s' →
    Step b (.committing (.storing tried first)) s
      (.committing (.done (.ok (tried ++ [first], b.placed first)))) s'
  /-- Another commit came first. -/
  | commitsLate {s tried first} : s.counter Sequence.events + 1 ≠ first →
    Step b (.committing (.storing tried first)) s
      (.committing (.retrying (tried ++ [first]))) s
  /-- An event of the batch clashes. -/
  | clashes {s tried first s' err} : s.counter Sequence.events + 1 = first →
    (s.commitEvents Sequence.events (b.placed first)).1 = .error err → s'.Agrees s →
    Step b (.committing (.storing tried first)) s (.committing (.done (.error err))) s'
  /-- Another attempt begins. -/
  | retries {s tried} : Step b (.committing (.retrying tried)) s (.committing (.reading tried)) s
  /-- The append is over. -/
  | rests {a s} : (a.next b).result?.isSome → Step b a s a s

/-- **What is known of an append that is under way.** -/
structure Sound (b : Batch) (a : Append) : Prop where
  /-- Only a batch with events is put to the store. -/
  nonempty : (∀ r, a ≠ .done r) → b.drafts ≠ []
  /-- Only a writer that has seen no events makes a head. -/
  expected_eq : a = .creatingHead → b.expected = 0
  /-- Only a writer that has seen events moves a head. -/
  expected_pos : a = .movingHead → 0 < b.expected
  /-- Positions are counted from one. -/
  first_pos : ∀ tried first, a = .committing (.storing tried first) → 0 < first
  /-- An append that ends before its versions are claimed was refused or too late. -/
  done_eq : ∀ r, a = .done r → start b = .done r ∨ r = .error (.concurrency b.stream b.version)

theorem sound_start (b : Batch) : (start b).Sound b := by
  refine ⟨fun h hnil => ?_, fun h => ?_, fun h => ?_, fun tried first h => ?_, fun r => Or.inl⟩
  · rw [start] at h
    split at h
    · exact h _ rfl
    · exact h (.ok []) (if_pos (by rw [hnil]; rfl))
  all_goals
    rw [start] at h
    split at h
    · cases h
    · split at h <;> cases h

/-- **There is no other step.** -/
theorem step_next {b : Batch} {a : Append} {s : Store} (hs : s.Ordered) (hh : s.HeadsInPlace)
    (ha : a.Sound b) :
    Step b a s ((a.next b).step none a s).1 ((a.next b).step none a s).2 := by
  cases a with
  | findingHead =>
    simp only [next, Progress.step, Call.perform]
    cases hget : s.heads.get? b.stream with
    | none =>
      by_cases he : b.expected = 0
      · simpa only [he, if_true] using Step.findsNone hget he
      · simp only [he, if_false]
        exact .findsOther (by rw [Store.version_of_get?_none hget]; exact Ne.symm he)
    | some head =>
      by_cases he : head.version = b.expected
      · simpa only [he, if_true] using Step.findsHead hget he (hh.version_pos _ _ hget)
      · simp only [he, if_false]
        exact .findsOther (by rw [Store.version_of_get? hget]; exact he)
  | creatingHead =>
    simp only [next, Progress.step, Call.perform]
    cases hget : s.heads.get? b.stream with
    | none =>
      rw [Store.insertHead_of_none hget]
      exact .creates hget
    | some head =>
      rw [Store.insertHead_of_some hget]
      exact .createsLate hget
  | movingHead =>
    simp only [next, Progress.step, Call.perform]
    by_cases hat : ∃ head, s.heads.get? b.stream = some head ∧ head.version = b.expected
    · obtain ⟨head, hget, he⟩ := hat
      rw [Store.advanceHead_of_version hget (hh.stream_eq _ _ hget) he]
      exact .moves hget he (hh.stream_eq _ _ hget)
    · have hne : ∀ head, s.heads.get? b.stream = some head → head.version ≠ b.expected :=
        fun head hget he => hat ⟨head, hget, he⟩
      rw [Store.advanceHead_of_ne hne]
      exact .movesLate hne
  | conflicting => exact .reports
  | committing c =>
    cases c with
    | reading tried =>
      simp only [next, Commit.next, Progress.within, Progress.step, Call.perform]
      have hcounter : (s.counters.get? Sequence.events).getD 0 = s.counter Sequence.events := rfl
      rw [hcounter, Sequence.succ?]
      by_cases hc : s.counter Sequence.events < Text.maxWord
      · rw [if_pos hc]
        exact .reads hc
      · rw [if_neg hc]
        exact .readsLast hc
    | storing tried first =>
      have hds : b.drafts ≠ [] := ha.nonempty (by simp)
      have hpos := ha.first_pos tried first rfl
      simp only [next, Commit.next, Progress.within, Progress.step, Call.perform]
      rcases Store.commitEvents_cases b.stream b.expected hs hds hpos with
        ⟨hne, heq⟩ | ⟨hfirst, s', heq, hgains⟩ | ⟨hfirst, err, s', heq, hagrees⟩
      · rw [Batch.placed, heq]
        exact .commitsLate hne
      · have hok := congrArg Prod.fst heq
        rw [Batch.placed, heq]
        exact .commits hfirst hok hgains
      · have herr := congrArg Prod.fst heq
        rw [Batch.placed, heq]
        exact .clashes hfirst herr hagrees
    | retrying tried => exact .retries
    | done result => cases result <;> exact .rests rfl
  | done result => exact .rests rfl

/-- A step keeps what is known of an append. -/
theorem Step.sound {b : Batch} {a a' : Append} {s s' : Store} (h : Step b a s a' s')
    (ha : a.Sound b) : a'.Sound b := by
  have hds : (∀ r, a' ≠ .done r) → b.drafts ≠ [] := fun hlive =>
    ha.nonempty fun r hr => by
      subst hr
      cases h
      exact hlive r rfl
  cases h with
  | findsNone _ hexpected => exact ⟨hds, fun _ => hexpected, nofun, nofun, nofun⟩
  | findsHead _ hversion hpos => exact ⟨hds, nofun, fun _ => hversion ▸ hpos, nofun, nofun⟩
  | reports => exact ⟨hds, nofun, nofun, nofun, fun r heq => by cases heq; exact Or.inr rfl⟩
  | reads =>
    refine ⟨hds, nofun, nofun, fun tried first heq => ?_, nofun⟩
    injection heq with heq
    injection heq with _ heq
    omega
  | rests => exact ha
  | _ => exact ⟨hds, nofun, nofun, nofun, nofun⟩

/-! ### What the steps do to the store -/

/-- The versions of the batch are claimed. -/
def Holds (a : Append) : Prop := ∃ c, a = .committing c

/-- The events that are committed. -/
def stored? : Append → Option (List Event)
  | committing (.done (.ok (_, events))) => some events
  | _ => none

theorem not_holds_start (b : Batch) : ¬(start b).Holds := by
  rintro ⟨c, hc⟩
  rw [start] at hc
  split at hc
  · cases hc
  · split at hc <;> cases hc

theorem Holds.of_stored? {a : Append} {events : List Event} (h : a.stored? = some events) :
    a.Holds := by
  unfold stored? at h
  split at h
  · exact ⟨_, rfl⟩
  · exact nomatch h

/-- **What a step of an append can do to the store.** -/
inductive Effect (b : Batch) (a : Append) (s : Store) (a' : Append) (s' : Store) : Prop
  /-- Nothing that a read could find. -/
  | nothing : (a'.Holds ↔ a.Holds) → a'.stored? = a.stored? → s'.Agrees s → Effect b a s a' s'
  /-- The versions of the batch are claimed, the stream being where the writer has seen it. -/
  | claim (head : Head) : ¬a.Holds → a'.Holds → a'.stored? = none → b.drafts ≠ [] →
    s.version b.stream = b.expected → head.stream = b.stream → head.version = b.version →
    s' = s.withHead head → Effect b a s a' s'
  /-- The batch is committed after all events that there are. -/
  | commit : a.Holds → a.stored? = none → a'.Holds →
    a'.stored? = some (b.placed (s.counter Sequence.events + 1)) →
    s.Gains (b.placed (s.counter Sequence.events + 1)) s' → Effect b a s a' s'

theorem Step.effect {b : Batch} {a a' : Append} {s s' : Store} (h : Step b a s a' s')
    (ha : a.Sound b) : Effect b a s a' s' := by
  cases h with
  | creates hget =>
    have hexpected : s.version b.stream = b.expected := by
      rw [Store.version_of_get?_none hget, ha.expected_eq rfl]
    exact .claim _ nofun ⟨_, rfl⟩ rfl (ha.nonempty nofun) hexpected rfl rfl rfl
  | @moves _ head hget hversion hstream =>
    have hexpected : s.version b.stream = b.expected := by
      rw [Store.version_of_get? hget, hversion]
    exact .claim { head with version := b.version } nofun ⟨_, rfl⟩ rfl (ha.nonempty nofun)
      hexpected hstream rfl rfl
  | commits hfirst _ hgains =>
    subst hfirst
    exact .commit ⟨_, rfl⟩ rfl ⟨_, rfl⟩ rfl hgains
  | clashes _ _ hagrees => exact .nothing ⟨fun _ => ⟨_, rfl⟩, fun _ => ⟨_, rfl⟩⟩ rfl hagrees
  | reads | readsLast | commitsLate | retries =>
    exact .nothing ⟨fun _ => ⟨_, rfl⟩, fun _ => ⟨_, rfl⟩⟩ rfl (.refl s)
  | rests => exact .nothing Iff.rfl rfl (.refl s)
  | _ => exact .nothing ⟨nofun, nofun⟩ rfl (.refl s)

/-- Versions are not given back. -/
theorem Effect.version_le {b : Batch} {a a' : Append} {s s' : Store}
    (h : Effect b a s a' s') (stream : Uuid) : s.version stream ≤ s'.version stream := by
  cases h with
  | nothing _ _ hagrees => rw [Store.version_congr hagrees.heads]
  | commit _ _ _ _ hgains => rw [Store.version_congr hgains.heads]
  | claim head _ _ _ hds hexpected hstream hversion heq =>
    have hlt := Batch.expected_lt_version hds
    rw [heq, Store.version_withHead]
    split
    · next hs =>
      rw [hs, hstream, hexpected, hversion]
      exact hlt.le
    · exact le_rfl

/-- **What a step of an append keeps of a store**: no event is lost, and no row is stored. -/
theorem Effect.keeps {b : Batch} {a a' : Append} {s s' : Store} (h : Effect b a s a' s')
    (hs : s.Ordered) (hh : s.HeadsInPlace) :
    s'.Ordered ∧ s'.HeadsInPlace ∧ (∀ e ∈ s.events.toList, e ∈ s'.events.toList) ∧
      s'.checkpoints = s.checkpoints := by
  cases h with
  | nothing _ _ hagrees =>
    refine ⟨hagrees.ordered hs, hh.congr hagrees.heads, fun e he => ?_, hagrees.checkpoints⟩
    rw [hagrees.events.toList]
    exact he
  | claim head _ _ _ hds _ _ hversion heq =>
    have hpos := Batch.expected_lt_version hds
    rw [heq]
    exact ⟨hs.withHead head, hh.withHead (by omega), fun e => id, rfl⟩
  | commit _ _ _ _ hgains =>
    exact ⟨hgains.ordered, hh.congr hgains.heads, fun e he => (hgains.mem_iff e).mpr (Or.inl he),
      hgains.checkpoints⟩

/-! ### Results -/

/-- **What an append returns**: what it was told before it claimed any versions, or what has
come of the commit. -/
theorem result?_next_eq_some_iff {b : Batch} {a : Append} {r : Except LogError (List Event)} :
    (a.next b).result? = some r ↔
      a = .done r ∨ (∃ e, a = .committing (.done (.error e)) ∧ r = .error (.store e)) ∨
        ∃ events, a.stored? = some events ∧ r = .ok events := by
  cases a with
  | committing c =>
    cases c with
    | done result =>
      cases result with
      | error e => simp [next, Commit.next, Progress.within, Progress.result?, stored?, eq_comm]
      | ok p => simp [next, Commit.next, Progress.within, Progress.result?, stored?, eq_comm]
    | _ => simp [next, Commit.next, Progress.within, Progress.result?, stored?]
  | _ => simp [next, Progress.result?, stored?]

end Append

/-! ### Writers -/

/-- **A writer**: a batch, and how far its append has come. -/
structure Writer where
  /-- The batch. -/
  batch : Batch
  /-- How far its append has come. -/
  append : Append

namespace Writer

/-- A writer that has not begun. -/
def start (b : Batch) : Writer := ⟨b, .start b⟩

/-- What a writer does next. -/
def next (w : Writer) : Progress Writer (Except LogError (List Event)) :=
  (w.append.next w.batch).within (fun a => ⟨w.batch, a⟩) .finished

/-- What a writer is told in the end. -/
def result? (w : Writer) : Option (Except LogError (List Event)) := w.next.result?

/-- **The versions that a writer has claimed**: `n` is one of them. -/
def Claims (w : Writer) (stream : Uuid) (n : Nat) : Prop :=
  w.append.Holds ∧ w.batch.stream = stream ∧ w.batch.expected ≤ n ∧ n < w.batch.version

/-- Two writers that have no version in common. -/
def Apart (w w' : Writer) : Prop := ∀ stream n, w.Claims stream n → ¬w'.Claims stream n

/-- An event that a writer has committed. -/
def HasStored (w : Writer) (e : Event) : Prop :=
  ∃ events, w.append.stored? = some events ∧ e ∈ events

theorem Apart.symm {w w' : Writer} (h : w.Apart w') : w'.Apart w := fun stream n h' hw =>
  h stream n hw h'

theorem step_next (w : Writer) (s : Store) :
    w.next.step none w s =
      (⟨w.batch, ((w.append.next w.batch).step none w.append s).1⟩,
        ((w.append.next w.batch).step none w.append s).2) := by
  rw [next]
  cases w.append.next w.batch <;> rfl

theorem result?_eq (w : Writer) : w.result? = (w.append.next w.batch).result? := by
  unfold result? next
  cases w.append.next w.batch <;> rfl

theorem result?_of_stored? (w : Writer) {events : List Event}
    (h : w.append.stored? = some events) : w.result? = some (.ok events) := by
  rw [result?_eq]
  exact Append.result?_next_eq_some_iff.mpr (Or.inr (Or.inr ⟨events, h, rfl⟩))

end Writer

end EventJournal
