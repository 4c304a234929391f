import EventJournal.Bench.Request
import EventJournal.Proofs.Appending.Writer

/-!
# Clients of the log

Clients append to the log, read from it and save snapshots, any number of them at a time.
What a client asks for is a request that the log itself answers
(`EventJournal.LogRequest`); it is not a call on what lies below the log.

| a client that | changes |
|---|---|
| appends to one stream or to several | heads, events and their counter, by the steps of an append |
| reads a stream, the log, or a version | nothing |
| saves a snapshot | snapshots |

So whatever clients do, and however far they have come with it, the events lie below the
heads of their streams (`EventJournal.Store.Bounded`): a version that nobody has claimed is
free.
-/

namespace EventJournal

/-- **What can be asked of the log.** -/
def Request.ofLog : Request → Bool
  | append _ | appendEach _ | readStream .. | streamVersion _ | readAfter .. | readAfterEvent ..
  | positionOf _ | pages .. | saveSnapshot _ | findSnapshot .. | saveState .. | loadState .. => true
  | _ => false

/-- A request that the log answers. -/
def LogRequest : Type := { r : Request // r.ofLog = true }

/-! ### Reading -/

/-- The tables that an append works on are the same. -/
structure Store.SameLog (s s' : Store) : Prop where
  /-- The events. -/
  events : s'.events = s.events
  /-- The heads. -/
  heads : s'.heads = s.heads
  /-- The counters. -/
  counters : s'.counters = s.counters

theorem Store.SameLog.refl (s : Store) : s.SameLog s := ⟨rfl, rfl, rfl⟩

/-- A call that neither appends nor counts. -/
def Call.Reads : Call → Prop
  | eventsOfStream .. | eventsAfter .. | positionOf _ | findHead _ | insertSnapshot _
  | findSnapshot .. => True
  | _ => False

theorem Call.Reads.sameLog {call : Call} (h : call.Reads) (s : Store) :
    s.SameLog (call.perform s).2 := by
  cases call with
  | eventsOfStream | eventsAfter | positionOf | findHead | insertSnapshot | findSnapshot =>
    exact ⟨rfl, rfl, rfl⟩
  | _ => exact absurd h id

namespace Progress

variable {σ τ ρ π : Type}

/-- A procedure whose next step neither appends nor counts. -/
def Reads (p : Progress σ ρ) : Prop := p.Calls Call.Reads

theorem Reads.sameLog {p : Progress σ ρ} (h : p.Reads) (fault : Option StoreError) (state : σ)
    (s : Store) : s.SameLog (p.step fault state s).2 := by
  rcases h.step_store fault state s with heq | ⟨call, hcall, heq⟩
  · rw [heq]
    exact .refl s
  · rw [heq]
    exact hcall.sameLog s

end Progress

theorem Locating.next_reads (l : Locating) : l.next.Reads := l.next_calls fun _ => trivial

theorem Reading.next_reads (r : Reading) : r.next.Reads :=
  r.next_calls (fun _ _ _ => trivial) (fun _ _ => trivial) fun _ => trivial

theorem Paging.next_reads (limit : Nat) (p : Paging) : (p.next limit).Reads := by
  cases p with
  | reading pages page =>
    refine page.next_reads.within fun r _ => ?_
    cases r with
    | error e => exact nofun
    | ok events =>
      cases events with
      | nil => exact nofun
      | cons e rest => exact nofun
  | done result => exact nofun

theorem Saving.next_reads (p : Saving) : p.next.Reads := by
  cases p with
  | storing snapshot =>
    exact Progress.calls_asks (show (Call.insertSnapshot snapshot).Reads from trivial) _
  | done result => exact nofun

theorem Loading.next_reads (p : Loading) : p.next.Reads := by
  cases p with
  | asking stream limit =>
    exact Progress.calls_asks (show (Call.findSnapshot stream limit).Reads from trivial) _
  | done result => exact nofun

/-! ### Appending -/

/-- **A store whose events lie below the heads of their streams.** -/
structure Store.Bounded (s : Store) : Prop where
  /-- The positions. -/
  ordered : s.Ordered
  /-- The heads. -/
  inPlace : s.HeadsInPlace
  /-- The indexes. -/
  index_lt : ∀ e ∈ s.events.toList, e.index < s.version e.stream

theorem Store.bounded_empty : Store.empty.Bounded :=
  ⟨ordered_empty, headsInPlace_empty, nofun⟩

theorem Store.Bounded.sameLog {s s' : Store} (h : s.Bounded) (hsame : s.SameLog s') :
    s'.Bounded := by
  have hcounter : s'.counter Sequence.events = s.counter Sequence.events := by
    rw [counter, counter, hsame.counters]
  refine ⟨⟨hsame.events ▸ h.ordered.coherent, fun p => ?_⟩, h.inPlace.congr hsame.heads,
    fun e he => ?_⟩
  · rw [hsame.events, hcounter]
    exact h.ordered.position_iff p
  · rw [version_congr hsame.heads]
    exact h.index_lt e (hsame.events ▸ he)

/-- An append whose claim, if it has one, lies below the head. -/
structure Append.Below (b : Batch) (a : Append) (s : Store) : Prop where
  /-- What is known of the append. -/
  sound : a.Sound b
  /-- The claim. -/
  version_le : a.Holds → b.version ≤ s.version b.stream

theorem Append.below_start (b : Batch) (s : Store) : Below b (start b) s :=
  ⟨sound_start b, fun h => absurd h (not_holds_start b)⟩

theorem Append.Below.mono {b : Batch} {a : Append} {s s' : Store} (h : Below b a s)
    (hle : ∀ stream, s.version stream ≤ s'.version stream) : Below b a s' :=
  ⟨h.sound, fun hholds => (h.version_le hholds).trans (hle _)⟩

/-- **A step of an append keeps the events below the heads.** -/
theorem Append.Below.step {b : Batch} {a : Append} {s : Store} (hs : s.Bounded)
    (ha : Below b a s) :
    ((a.next b).step none a s).2.Bounded ∧
      Below b ((a.next b).step none a s).1 ((a.next b).step none a s).2 ∧
      ∀ stream, s.version stream ≤ ((a.next b).step none a s).2.version stream := by
  have hstep := step_next hs.ordered hs.inPlace ha.sound
  have heffect := hstep.effect ha.sound
  have hsound := hstep.sound ha.sound
  have hle := heffect.version_le
  obtain ⟨hordered, hinPlace, -, -⟩ := heffect.keeps hs.ordered hs.inPlace
  have hold : ∀ e ∈ s.events.toList,
      e.index < ((a.next b).step none a s).2.version e.stream := fun e he =>
    lt_of_lt_of_le (hs.index_lt e he) (hle e.stream)
  refine ⟨⟨hordered, hinPlace, ?_⟩, ⟨hsound, ?_⟩, hle⟩
  · intro e he
    cases heffect with
    | nothing _ _ hagrees => exact hold e (hagrees.events.toList ▸ he)
    | claim head _ _ _ _ _ _ _ heq =>
      rw [heq] at he
      exact hold e he
    | commit hheld _ _ _ hgains =>
      rcases (hgains.mem_iff e).mp he with he | he
      · exact hold e he
      · -- the new events lie within the claim, which lies below the head
        obtain ⟨hst, -, hlt⟩ := Batch.exists_mem_placed_iff.mp ⟨e, he, rfl, rfl⟩
        exact lt_of_lt_of_le (hst ▸ lt_of_lt_of_le hlt (ha.version_le hheld)) (hle _)
  · intro hholds
    cases heffect with
    | nothing hiff => exact (ha.version_le (hiff.mp hholds)).trans (hle _)
    | claim head _ _ _ _ _ hstream hversion heq =>
      rw [heq, Store.version_withHead, if_pos hstream.symm, hversion]
    | commit hheld => exact (ha.version_le hheld).trans (hle _)

/-! ### Clients -/

/-- A client of the log: what it asks for, and how far it has come. -/
structure Client where
  /-- What it asks for. -/
  request : LogRequest
  /-- How far it has come. -/
  activity : Activity

namespace Client

/-- A client that has not begun. -/
def start (r : LogRequest) : Client := ⟨r, r.val.start⟩

/-- What a client does next. -/
def next (c : Client) : Progress Client Reply :=
  (c.request.val.next c.activity).within (fun a => ⟨c.request, a⟩) .finished

end Client

/-- **What is known of what a client is at**: an append that it is at lies below the heads, and
it is at nothing that the log does not answer. -/
def Activity.Below (s : Store) : Activity → Prop
  | appending _ b a _ => a.Below b s
  | appendingEach (.appending _ b a _) => a.Below b s
  | allocating _ | committing _ | marking _ => False
  | _ => True

theorem Activity.Below.mono {a : Activity} {s s' : Store} (h : a.Below s)
    (hle : ∀ stream, s.version stream ≤ s'.version stream) : a.Below s' := by
  cases a with
  | appending committed b append rest => exact Append.Below.mono h hle
  | appendingEach append =>
    cases append with
    | appending results b append rest => exact Append.Below.mono h hle
    | done results => trivial
  | _ => exact h

theorem Activity.below_proceed (s : Store) (committed : List Event) (batches : List Batch) :
    (proceed committed batches).Below s := by
  cases batches with
  | nil => trivial
  | cons b rest => exact Append.below_start b s

theorem AppendEach.below_proceed (s : Store) (results : List StreamResult)
    (batches : List Batch) : (Activity.appendingEach (proceed results batches)).Below s := by
  cases batches with
  | nil => trivial
  | cons b rest => exact Append.below_start b s

theorem Client.below_start (s : Store) (r : LogRequest) : (Client.start r).activity.Below s := by
  rcases r with ⟨r, hr⟩
  cases r with
  | append b => exact Append.below_start b s
  | appendEach proposals => exact AppendEach.below_proceed s [] _
  | allocate | commit | mark => exact nomatch hr
  | seedBatches batches => exact nomatch hr
  | _ => trivial

/-- **What a step of a client keeps.** -/
structure Store.Keeps (s : Store) (a' : Activity) (s' : Store) : Prop where
  /-- The events lie below the heads. -/
  bounded : s'.Bounded
  /-- So does what the client is at. -/
  below : a'.Below s'
  /-- Versions are not given back. -/
  version_le : ∀ stream, s.version stream ≤ s'.version stream

theorem Store.Keeps.refl {s : Store} {a : Activity} (hs : s.Bounded) (ha : a.Below s) :
    s.Keeps a s := ⟨hs, ha, fun _ => le_rfl⟩

/-- Going on with something that only reads. -/
theorem Progress.Reads.keeps {σ ρ : Type} {p : Progress σ ρ} (h : p.Reads) {s : Store}
    (hs : s.Bounded) (embed : σ → Activity) (hembed : ∀ c s, (embed c).Below s)
    (reply : ρ → Reply) (c : σ) :
    s.Keeps ((p.within embed fun r => .finished (reply r)).step none (embed c) s).1
      ((p.within embed fun r => .finished (reply r)).step none (embed c) s).2 := by
  cases hp : p.result? with
  | some r =>
    rw [Progress.within_of_result? hp]
    exact .refl hs (hembed c s)
  | none =>
    have hsame := h.sameLog none c s
    rw [Progress.step_within none hp embed _ c]
    refine ⟨hs.sameLog hsame, hembed _ _, fun stream => ?_⟩
    rw [Store.version_congr hsame.heads]

/-- Going on with an append, and with what comes after it. -/
theorem Append.Below.keeps {b : Batch} {a : Append} {s : Store} (hs : s.Bounded)
    (ha : Below b a s) (embed : Append → Activity)
    (hembed : ∀ a s, (embed a).Below s ↔ Below b a s)
    {proceed : Except LogError (List Event) → Progress Activity Reply}
    (hproceed : ∀ r, (∃ reply, proceed r = .finished reply) ∨
      ∃ a', proceed r = .moves a' ∧ ∀ s, a'.Below s) :
    s.Keeps (((a.next b).within embed proceed).step none (embed a) s).1
      (((a.next b).within embed proceed).step none (embed a) s).2 := by
  cases hp : (a.next b).result? with
  | some r =>
    rw [Progress.within_of_result? hp]
    rcases hproceed r with ⟨reply, hr⟩ | ⟨a', hr, ha'⟩
    · rw [hr]
      exact .refl hs ((hembed a s).mpr ha)
    · rw [hr]
      exact .refl hs (ha' s)
  | none =>
    obtain ⟨hbounded, hbelow, hle⟩ := ha.step hs
    rw [Progress.step_within none hp embed proceed a]
    exact ⟨hbounded, (hembed _ _).mpr hbelow, hle⟩

/-- **Whatever a client is at, a step of it keeps the events below the heads.** -/
theorem Request.keeps_step (r : LogRequest) {a : Activity} {s : Store} (hs : s.Bounded)
    (ha : a.Below s) :
    s.Keeps ((r.val.next a).step none a s).1 ((r.val.next a).step none a s).2 := by
  cases a with
  | calling =>
    rcases r with ⟨r, hr⟩
    cases r with
    | streamVersion stream => exact ⟨hs, trivial, fun _ => le_rfl⟩
    | currentNumber | lastMarked | call | seedStream => exact nomatch hr
    | _ => exact .refl hs trivial
  | appending committed b append rest =>
    refine Append.Below.keeps hs ha (.appending committed b · rest) (fun _ _ => Iff.rfl)
      fun result => ?_
    cases result with
    | ok events => exact Or.inr ⟨_, rfl, fun s => Activity.below_proceed s _ _⟩
    | error e => exact Or.inl ⟨_, rfl⟩
  | appendingEach append =>
    cases append with
    | appending results b append rest =>
      have heq : r.val.next (.appendingEach (.appending results b append rest)) =
          (append.next b).within (fun a => .appendingEach (.appending results b a rest))
            fun result => .moves (.appendingEach
              (.proceed (results ++ [(b.stream, result)]) rest)) := by
        simp only [next, AppendEach.next]
        cases append.next b <;> rfl
      rw [heq]
      exact Append.Below.keeps hs ha (fun a => .appendingEach (.appending results b a rest))
        (fun _ _ => Iff.rfl) fun result => Or.inr ⟨_, rfl, fun s =>
          AppendEach.below_proceed s _ _⟩
    | done results => exact .refl hs ha
  | reading reading => exact reading.next_reads.keeps hs .reading (fun _ _ => trivial) _ reading
  | locating search => exact search.next_reads.keeps hs .locating (fun _ _ => trivial) _ search
  | paging paging => exact (paging.next_reads _).keeps hs .paging (fun _ _ => trivial) _ paging
  | saving saving => exact saving.next_reads.keeps hs .saving (fun _ _ => trivial) _ saving
  | loading loading => exact loading.next_reads.keeps hs .loading (fun _ _ => trivial) _ loading
  | done reply => exact .refl hs trivial
  | _ => exact absurd ha id

theorem Client.keeps_step (c : Client) {s : Store} (hs : s.Bounded) (hc : c.activity.Below s) :
    s.Keeps (c.next.step none c s).1.activity (c.next.step none c s).2 := by
  have h := Request.keeps_step c.request hs hc
  rw [Client.next]
  cases hp : (c.request.val.next c.activity).result? with
  | some r =>
    rw [Progress.within_of_result? hp]
    exact .refl hs hc
  | none =>
    rw [Progress.step_within none hp _ _ c.activity]
    exact h

/-- **Whatever is asked of a new log, and however far it has come**, the events lie below the
heads of their streams. -/
theorem Interleaving.bounded_run (requests : List LogRequest) (schedule : List Nat) :
    (Interleaving.run Client.next schedule ⟨.empty, requests.map Client.start⟩).store.Bounded := by
  have hrun := @run_induction _ _ Client.next
    (fun x => x.store.Bounded ∧ ∀ c ∈ x.states, c.activity.Below x.store)
    ⟨.empty, requests.map Client.start⟩ schedule ⟨Store.bounded_empty, fun c hc => ?_⟩
    fun x i c ⟨hs, hall⟩ hi => ?_
  · exact hrun.1
  · obtain ⟨r, -, rfl⟩ := List.mem_map.mp hc
    exact Client.below_start _ r
  · have hkeeps := c.keeps_step hs (hall c (List.mem_of_getElem? hi))
    exact ⟨hkeeps.bounded, forall_mem_set (fun d hd => (hall d hd).mono hkeeps.version_le)
      hkeeps.below⟩

end EventJournal
