import EventJournal.Proofs.Committing
import EventJournal.Proofs.Counting

/-!
# A counter among rivals

Whoever takes numbers from a counter reads it, and then writes on the condition that it still
stands where it was read. If it does not, everything is done again, and no bound is set to how
often. Here a user of a counter is followed among rivals, which may make any calls on the store
between any two of its own, as long as they leave the counter as it is, make it at zero, or move it
on.

A loop is lost only to a rival that has gained by it. So a user that takes a number begins two
loops more than the counter has been moved on by rivals, at most: one in which it finds no counter,
and one in which nobody comes first. A user that commits a batch need not make the counter and
begins one loop more, at most (`EventJournal.Contest.retries_paid`).

All users go through the same phases (`EventJournal.Contest.Phase`), and `EventJournal.Contest.Acts`
says what a turn of a user can be:

| phase | call | next phase |
|---|---|---|
| reading | read, nothing there | creating |
| reading | read, a number below the greatest | holding it |
| reading | read, the greatest number | done, out of range |
| creating | make the counter, in time or too late | reading |
| holding | write, the counter has not moved | done |
| holding | write, it has | retrying |
| retrying | | reading |

To each phase belong the turns and the loops that are kept in reserve for what is to come. A turn
uses one up; an advance of a rival, which may send the user back to the beginning, brings three
turns and one loop.
-/

namespace EventJournal

namespace Store

variable {s : Store} {name : String} {current : Nat} {events : List Event}

/-- **A commit of events that follow a number.** If no key is had twice, it comes too late, and
nothing happens, or it is made; a batch of no events is never late. -/
theorem commitEvents_follow (hs : s.events.Coherent) (hfollow : Follow current events)
    (hdistinct : Follow (s.counter name) events → Event.Distinct (s.events.toList ++ events)) :
    (s.counter name ≠ current ∧ s.commitEvents name events = (.ok false, s)) ∨
      (events ≠ [] → s.counter name = current) ∧ (s.commitEvents name events).1 = .ok true ∧
        s.HandsOut name events.length events (s.commitEvents name events).2 := by
  cases events with
  | nil => exact Or.inr ⟨fun hne => absurd rfl hne, rfl, handsOut_refl hs name⟩
  | cons first rest =>
    have hfirst : first.position = current + 1 := hfollow.1
    rcases heq : s.commitEvents name (first :: rest) with ⟨r, s'⟩
    cases commits_of_eq heq with
    | unplaced hzero => omega
    | elsewhere _ hcounter => exact Or.inl ⟨by omega, rfl⟩
    | undone _ hcounter hinsert =>
      have hnumber : s.counter name = current := by omega
      have hnone := hs.insertAll_iff_distinct.mpr (hdistinct (hnumber ▸ hfollow))
      rw [hinsert] at hnone
      exact nomatch hnone
    | stored _ hcounter =>
      refine Or.inr ⟨fun _ => by omega, rfl, ?_⟩
      rcases handsOut_commitEvents hs name hfollow.inRow with ⟨hanswer, -⟩ | ⟨-, -, hgives⟩
      · exact absurd (congrArg Prod.fst heq) hanswer
      · rwa [heq] at hgives

end Store

instance (a b : Event) : Decidable (a.Clash b) := inferInstanceAs (Decidable (_ ∨ _ ∨ _ ∧ _))

instance : DecidablePred Event.Distinct := fun events =>
  inferInstanceAs (Decidable (events.Pairwise fun a b => ¬a.Clash b))

instance decidableFollow : (p : Nat) → (events : List Event) → Decidable (Follow p events)
  | _, [] => isTrue trivial
  | p, e :: rest =>
    have := decidableFollow (p + 1) rest
    inferInstanceAs (Decidable (e.position = p + 1 ∧ _))

/-! ### Uses of a counter -/

namespace CounterUse

/-- The write of a user that has read a number. -/
def update (current : Nat) : CounterUse → Call
  | allocation counter => .advanceCounter counter current (current + 1)
  | commit counter numbering => .commitEvents counter (numbering.build (current + 1))

/-- The numbers that a user is given when its write is made, and the events that it has stored. -/
def yield (current : Nat) : CounterUse → List Nat × List Event
  | allocation _ => ([current + 1], [])
  | commit _ numbering =>
    ((numbering.build (current + 1)).map (·.position), numbering.build (current + 1))

/-- The loops that a user may need when no rival moves the counter on. -/
def patience : CounterUse → Nat
  | allocation _ => 2
  | commit .. => 1

/-- The events of a batch are numbered from the first number on. -/
def Consecutive : CounterUse → Prop
  | allocation _ => True
  | commit _ numbering => ∀ current, Follow current (numbering.build (current + 1))

/-- Whether a user that reads the counter must make it. -/
def misses (s : Store) : CounterUse → Bool
  | allocation counter => (s.counters.get? counter).isNone
  | commit .. => false

/-- Whether the counter stands where it was read. -/
def stands (s : Store) (current : Nat) : CounterUse → Bool
  | allocation counter => s.counters.get? counter = some current
  | commit counter _ => s.counter counter = current

variable {use : CounterUse} {s s' : Store} {current : Nat}

theorem get?_of_misses (h : use.misses s = true) : s.counters.get? use.counter = none := by
  cases use with
  | allocation name => exact Option.isNone_iff_eq_none.mp h
  | commit => exact absurd h Bool.false_ne_true

theorem misses_of_get?_ne_none (h : s.counters.get? use.counter ≠ none) : use.misses s = false := by
  cases use with
  | allocation name => exact Option.isNone_eq_false_iff.mpr (Option.isSome_iff_ne_none.mpr h)
  | commit => rfl

theorem misses_congr (h : s'.counters.get? use.counter = s.counters.get? use.counter) :
    use.misses s' = use.misses s := by
  cases use with
  | allocation name => exact congrArg Option.isNone h
  | commit => rfl

theorem stands_congr (h : s'.counters.get? use.counter = s.counters.get? use.counter)
    (current : Nat) : use.stands s' current = use.stands s current := by
  cases use with
  | allocation name => exact congrArg (fun value => decide (value = some current)) h
  | commit name numbering =>
    exact congrArg (fun value => decide (Option.getD value 0 = current)) h

theorem counter_of_stands (h : use.stands s current = true) :
    s.counter use.counter = current := by
  cases use with
  | allocation name => rw [counter, Store.counter, of_decide_eq_true h, Option.getD_some]
  | commit name numbering => exact of_decide_eq_true h

theorem stands_of_misses (h : use.misses s = false) :
    use.stands s (s.counter use.counter) = true := by
  cases use with
  | allocation name =>
    obtain ⟨value, hvalue⟩ := Option.isSome_iff_exists.mp (Option.isNone_eq_false_iff.mp h)
    exact decide_eq_true (by rw [counter, Store.counter, hvalue, Option.getD_some])
  | commit name numbering => exact decide_eq_true rfl

end CounterUse

/-- What a user of a counter has come to: its numbers and its events, or an error. -/
def CounterUser.outcome? : CounterUser → Option (Except StoreError (List Nat × List Event))
  | allocates _ (.done result) => some (result.map fun n => ([n], []))
  | commits _ _ (.done result) => some (result.map fun r => (r.2.map (·.position), r.2))
  | _ => none

/-! ### Calls that were made -/

/-- **What a rival may do to a counter.** -/
inductive Store.Competes (name : String) (s s' : Store) : Prop
  /-- The counter is left as it is. -/
  | keeps : s'.counters.get? name = s.counters.get? name → s.Competes name s'
  /-- The counter is made at zero. -/
  | creates : s.counters.get? name = none → s'.counters.get? name = some 0 → s.Competes name s'
  /-- The counter is moved on to another word. -/
  | advances : s.counter name < s'.counter name → s'.counter name ≤ Text.maxWord →
    s.Competes name s'

instance (name : String) (s s' : Store) : Decidable (s.Competes name s') :=
  decidable_of_iff (s'.counters.get? name = s.counters.get? name ∨
      (s.counters.get? name = none ∧ s'.counters.get? name = some 0) ∨
      s.counter name < s'.counter name ∧ s'.counter name ≤ Text.maxWord)
    ⟨fun h => h.elim .keeps fun h => h.elim (fun h => .creates h.1 h.2) fun h => .advances h.1 h.2,
      fun h => by cases h <;> simp_all⟩

/-- The batch that a call is to commit at a counter. -/
def Call.batch? (name : String) : Call → Option (List Event)
  | commitEvents sequence events => if sequence = name then some events else none
  | _ => none

/-- **A call that was made** by the user of a counter or by a rival. -/
structure Occurrence where
  /-- Whether it is a call of the user. -/
  own : Bool
  /-- The call. -/
  call : Call
  /-- The store that it was made on. -/
  before : Store

namespace Occurrence

/-- The store that the call has left. -/
def after (o : Occurrence) : Store := (o.call.perform o.before).2

/-- Whether a conditional write was made, if the call is one that was answered. -/
def made? (o : Occurrence) : Option Bool :=
  match o.call with
  | .commitEvents sequence events => (o.before.commitEvents sequence events).1.toOption
  | .insertCounter name value => some (o.before.insertCounter name value).1
  | .advanceCounter name expected value => some (o.before.advanceCounter name expected value).1
  | _ => none

/-- Whether the user reads the counter, which begins a loop. -/
def reads (name : String) (o : Occurrence) : Bool := o.own && o.call = .findCounter name

/-- Whether the user asks for numbers. -/
def updates (o : Occurrence) : Bool :=
  o.own && match o.call with
    | .commitEvents .. | .advanceCounter .. => true
    | _ => false

/-- Whether the user is given numbers. -/
def succeeds (o : Occurrence) : Bool := o.updates && o.made? = some true

/-- Whether a rival moves the counter on. -/
def advances (name : String) (o : Occurrence) : Bool :=
  !o.own && decide (o.before.counter name < o.after.counter name)

/-- The user has read a number; there is none before the counter is made, which counts as zero. -/
def ReadsAs (name : String) (current : Nat) (o : Occurrence) : Prop :=
  o.reads name = true ∧ o.before.counter name = current

/-- The counter is made. -/
def Creates (name : String) (o : Occurrence) : Prop :=
  o.before.counters.get? name = none ∧ o.after.counters.get? name ≠ none

/-- **What calls are asked to keep to.** -/
structure Fair (name : String) (o : Occurrence) : Prop where
  /-- Rivals do nothing else to the counter than what they may. -/
  rival : o.own = false → o.before.Competes name o.after
  /-- In a batch of the user that follows the counter, no event has a key that another has. -/
  distinct : o.own = true → ∀ events ∈ o.call.batch? name,
    Follow (o.before.counter name) events → Event.Distinct (o.before.events.toList ++ events)

instance (name : String) (o : Occurrence) : Decidable (o.Fair name) :=
  decidable_of_iff ((o.own = false → o.before.Competes name o.after) ∧
      (o.own = true → ∀ events ∈ o.call.batch? name, Follow (o.before.counter name) events →
        Event.Distinct (o.before.events.toList ++ events)))
    ⟨fun h => ⟨h.1, h.2⟩, fun h => ⟨h.1, h.2⟩⟩

end Occurrence

/-- The last call of the user. -/
def lastOwn? (calls : List Occurrence) : Option Occurrence := calls.find? (·.own)

/-- What rivals have done since the last call of the user. -/
def rivalsSince (calls : List Occurrence) : List Occurrence := calls.takeWhile (!·.own)

section LastOwn

variable (call : Call) (s : Store) (calls : List Occurrence)

@[simp] theorem lastOwn?_own : lastOwn? (⟨true, call, s⟩ :: calls) = some ⟨true, call, s⟩ := rfl

@[simp] theorem lastOwn?_rival : lastOwn? (⟨false, call, s⟩ :: calls) = lastOwn? calls := rfl

@[simp] theorem rivalsSince_rival :
    rivalsSince (⟨false, call, s⟩ :: calls) = ⟨false, call, s⟩ :: rivalsSince calls := rfl

end LastOwn

/-! ### The contest -/

/-- **A user of a counter among rivals.** -/
structure Contest where
  /-- The user. -/
  user : CounterUser
  /-- The store. -/
  store : Store
  /-- The calls that were made, the latest of them standing first. -/
  calls : List Occurrence

namespace Contest

/-- **Who goes on.** -/
inductive Turn
  /-- The user takes a step. -/
  | own
  /-- A rival makes a call. -/
  | rival (call : Call)
  deriving DecidableEq

/-- The call that a user makes next on a store, if it makes one. -/
def nextCall (u : CounterUser) (s : Store) : List Occurrence :=
  match u.next with
  | .asks call _ => [⟨true, call, s⟩]
  | _ => []

/-- What is there after a turn. -/
def turn (x : Contest) : Turn → Contest
  | .own =>
    ⟨(x.user.next.step none x.user x.store).1, (x.user.next.step none x.user x.store).2,
      nextCall x.user x.store ++ x.calls⟩
  | .rival call => ⟨x.user, (call.perform x.store).2, ⟨false, call, x.store⟩ :: x.calls⟩

/-- **What is there after some turns**, the latest of them standing first. -/
def after (use : CounterUse) (s : Store) : (turns : List Turn) → Contest
  | [] => ⟨.start use, s, []⟩
  | now :: earlier => (after use s earlier).turn now

/-- The loops that the user has begun. -/
def loops (name : String) (x : Contest) : Nat := x.calls.countP (·.reads name)

/-- How often rivals have moved the counter on. -/
def advances (name : String) (x : Contest) : Nat := x.calls.countP (·.advances name)

/-! ### Turns of the user -/

/-- **How far a user has come.** -/
inductive Phase
  /-- A loop begins. -/
  | reading
  /-- The counter is to be made. -/
  | creating
  /-- A number was read. -/
  | holding (current : Nat)
  /-- A rival came first. -/
  | retrying
  /-- The user is done. -/
  | done (result : Except StoreError (List Nat × List Event))

/-- The phases of the two kinds of users. -/
inductive At : CounterUse → CounterUser → Phase → Prop
  | reads {name} : At (.allocation name) (.allocates name .reading) .reading
  | creates {name} : At (.allocation name) (.allocates name .creating) .creating
  | claims {name current} :
    At (.allocation name) (.allocates name (.claiming current)) (.holding current)
  | retries {name} : At (.allocation name) (.allocates name .retrying) .retrying
  | claimed {name result} : At (.allocation name) (.allocates name (.done result))
    (.done (result.map fun n => ([n], [])))
  | begins {name numbering tried} :
    At (.commit name numbering) (.commits name numbering (.reading tried)) .reading
  | stores {name numbering tried current} : At (.commit name numbering)
    (.commits name numbering (.storing tried (current + 1))) (.holding current)
  | beginsAgain {name numbering tried} :
    At (.commit name numbering) (.commits name numbering (.retrying tried)) .retrying
  | stored {name numbering result} : At (.commit name numbering)
    (.commits name numbering (.done result))
    (.done (result.map fun r => (r.2.map (·.position), r.2)))

theorem at_start (use : CounterUse) : At use (.start use) .reading := by
  cases use with
  | allocation => exact .reads
  | commit => exact .begins

/-- The user is not done. -/
def Phase.IsOpen (p : Phase) : Prop := ∀ result, p ≠ done result

theorem At.eq_done {use : CounterUse} {u : CounterUser} {p : Phase} (h : At use u p)
    {result : Except StoreError (List Nat × List Event)} (hresult : u.outcome? = some result) :
    p = .done result := by
  cases h with
  | claimed | stored => exact congrArg Phase.done (Option.some.inj hresult)
  | _ => exact nomatch hresult

theorem At.isOpen_iff {use : CounterUse} {u : CounterUser} {p : Phase} (h : At use u p) :
    p.IsOpen ↔ u.outcome? = none := by
  refine ⟨fun hopen => ?_, fun hnone result hp => ?_⟩
  · cases h with
    | claimed | stored => exact absurd rfl (hopen _)
    | _ => rfl
  · cases h with
    | claimed | stored => exact nomatch hnone
    | _ => exact nomatch hp

/-- **What a turn of a user can be**, the call that it makes, and the store that it leaves. -/
inductive Acts (use : CounterUse) (s : Store) : Phase → List Occurrence → Phase → Store → Prop
  /-- The counter must be made. -/
  | misses : use.misses s = true →
    Acts use s .reading [⟨true, .findCounter use.counter, s⟩] .creating s
  /-- A number is read. -/
  | reads {current} : use.stands s current = true → current < Text.maxWord →
    Acts use s .reading [⟨true, .findCounter use.counter, s⟩] (.holding current) s
  /-- There is no number after the one that is read. -/
  | readsLast {current} : s.counter use.counter = current → ¬current < Text.maxWord →
    Acts use s .reading [⟨true, .findCounter use.counter, s⟩]
      (.done (.error (.outOfRange "sequence" current))) s
  /-- The counter is made. -/
  | creates : s.counters.get? use.counter = none →
    Acts use s .creating [⟨true, .insertCounter use.counter 0, s⟩] .reading
      { s with counters := s.counters.insert use.counter 0 }
  /-- A rival has made the counter. -/
  | createsLate : s.counters.get? use.counter ≠ none →
    Acts use s .creating [⟨true, .insertCounter use.counter 0, s⟩] .reading s
  /-- The counter is moved on. -/
  | writes {current s'} : ((use.yield current).1 ≠ [] → s.counter use.counter = current) →
    Occurrence.succeeds ⟨true, use.update current, s⟩ = true →
    s.HandsOut use.counter (use.yield current).1.length (use.yield current).2 s' →
    Acts use s (.holding current) [⟨true, use.update current, s⟩]
      (.done (.ok (use.yield current))) s'
  /-- A rival has moved the counter on. -/
  | writesLate {current} : use.stands s current = false →
    Occurrence.made? ⟨true, use.update current, s⟩ = some false →
    Acts use s (.holding current) [⟨true, use.update current, s⟩] .retrying s
  /-- Another loop is to begin. -/
  | retries : Acts use s .retrying [] .reading s
  /-- The user is done. -/
  | rests {result} : Acts use s (.done result) [] (.done result) s

variable {use : CounterUse} {u : CounterUser} {s : Store} {p : Phase}

/-- **A turn of a user that holds a number**, which is to commit a batch. -/
theorem acts_storing {name : String} {numbering : Numbering} {current : Nat} (tried : List Nat)
    (hs : s.events.Coherent) (hbuild : CounterUse.Consecutive (.commit name numbering))
    (hfair : Occurrence.Fair name
      ⟨true, .commitEvents name (numbering.build (current + 1)), s⟩) :
    let next := ((Commit.storing tried (current + 1)).next name numbering.build).step none
      (.storing tried (current + 1)) s
    ∃ p', At (.commit name numbering) (.commits name numbering next.1) p' ∧
      Acts (.commit name numbering) s (.holding current)
        [⟨true, .commitEvents name (numbering.build (current + 1)), s⟩] p' next.2 := by
  simp only [Commit.next, Progress.step, Call.perform]
  rcases Store.commitEvents_follow (s := s) hs (hbuild current)
    (hfair.distinct rfl _ (if_pos rfl)) with ⟨hcounter, heq⟩ | ⟨hcounter, hanswer, hgives⟩
  · rw [heq]
    refine ⟨_, .beginsAgain, .writesLate (decide_eq_false hcounter) ?_⟩
    exact congrArg (fun r => r.1.toOption) heq
  · rw [hanswer]
    refine ⟨_, .stored, .writes (fun hne => hcounter fun hnil => hne ?_) ?_ ?_⟩
    · exact congrArg (List.map _) hnil
    · exact decide_eq_true (congrArg Except.toOption hanswer)
    · rw [CounterUse.yield, List.length_map]
      exact hgives

/-- **There is no other turn of a user.** -/
theorem acts_own (h : At use u p) (hs : s.events.Coherent) (hbuild : use.Consecutive)
    (hfair : ∀ o ∈ nextCall u s, o.Fair use.counter) :
    ∃ p', At use (u.next.step none u s).1 p' ∧
      Acts use s p (nextCall u s) p' (u.next.step none u s).2 := by
  rw [CounterUser.step_eq]
  cases h with
  | reads =>
    next name =>
    simp only [Allocation.next, Progress.step, Call.perform]
    cases hget : s.counters.get? name with
    | none => exact ⟨_, .creates, .misses (Option.isNone_iff_eq_none.mpr hget)⟩
    | some current =>
      dsimp only
      by_cases hlt : current < Text.maxWord
      · rw [Sequence.succ?, if_pos hlt]
        exact ⟨_, .claims, .reads (decide_eq_true hget) hlt⟩
      · have hcounter : s.counter name = current := by
          rw [Store.counter, hget, Option.getD_some]
        rw [Sequence.succ?, if_neg hlt]
        exact ⟨_, .claimed, .readsLast hcounter hlt⟩
  | creates =>
    next name =>
    simp only [Allocation.next, Progress.step, Call.perform, Store.insertCounter]
    cases hget : s.counters.get? name with
    | none =>
      rw [SortedMap.contains_eq_false_iff.mpr hget]
      exact ⟨_, .reads, .creates hget⟩
    | some current =>
      rw [SortedMap.contains_eq_true_iff.mpr ⟨current, hget⟩]
      exact ⟨_, .reads, .createsLate (hget ▸ Option.some_ne_none current)⟩
  | claims =>
    next name current =>
    simp only [Allocation.next, Progress.step, Call.perform, Store.advanceCounter]
    by_cases hget : s.counters.get? name = some current
    · have hcounter : s.counter name = current := by rw [Store.counter, hget, Option.getD_some]
      have hset := Store.handsOut_insert hs name 1
      rw [hcounter] at hset
      have hmade : Occurrence.made? ⟨true, .advanceCounter name current (current + 1), s⟩ =
          some true := by
        simp only [Occurrence.made?, Store.advanceCounter, if_pos hget]
      rw [if_pos hget]
      exact ⟨_, .claimed, .writes (fun _ => hcounter) (decide_eq_true hmade) hset⟩
    · have hmade : Occurrence.made? ⟨true, .advanceCounter name current (current + 1), s⟩ =
          some false := by
        simp only [Occurrence.made?, Store.advanceCounter, if_neg hget]
      rw [if_neg hget]
      exact ⟨_, .retries, .writesLate (decide_eq_false hget) hmade⟩
  | retries => exact ⟨_, .reads, .retries⟩
  | claimed => exact ⟨_, .claimed, .rests⟩
  | begins =>
    next name numbering tried =>
    simp only [Commit.next, Progress.step, Call.perform]
    have hcurrent : (s.counters.get? name).getD 0 = s.counter name := rfl
    rw [hcurrent]
    by_cases hlt : s.counter name < Text.maxWord
    · rw [Sequence.succ?, if_pos hlt]
      exact ⟨_, .stores, .reads (decide_eq_true rfl) hlt⟩
    · rw [Sequence.succ?, if_neg hlt]
      exact ⟨_, .stored, .readsLast rfl hlt⟩
  | stores => exact acts_storing _ hs hbuild (hfair _ (List.mem_singleton_self _))
  | beginsAgain => exact ⟨_, .begins, .retries⟩
  | stored => exact ⟨_, .stored, .rests⟩

/-! ### What is kept in reserve -/

/-- The loops that are kept for what is to come, if no rival moves the counter on. -/
def Phase.loopsLeft (use : CounterUse) (s : Store) : Phase → Nat
  | reading | retrying => if use.misses s then 2 else 1
  | creating => 1
  | holding current => if use.stands s current then 0 else if use.misses s then 2 else 1
  | done _ => 0

/-- The turns that are kept for what is to come. A loop takes two calls, and a turn without one
leads from a loop that was lost to the next. -/
def Phase.turnsLeft (use : CounterUse) (s : Store) (p : Phase) : Nat :=
  2 * p.loopsLeft use s +
    match p with
    | reading | done _ => 0
    | creating | retrying => 1
    | holding current => if use.stands s current then 1 else 2

theorem Phase.turnsLeft_pos {p : Phase} (hopen : p.IsOpen) : 0 < p.turnsLeft use s := by
  cases p with
  | reading =>
    simp only [turnsLeft, loopsLeft]
    split <;> exact Nat.succ_pos _
  | creating | retrying => exact Nat.succ_pos _
  | holding current =>
    simp only [turnsLeft]
    split <;> exact Nat.succ_pos _
  | done result => exact absurd rfl (hopen _)

variable {calls : List Occurrence} {p' : Phase} {s' : Store}

/-- A counter that exists is not missed. -/
theorem misses_insert (use : CounterUse) (s : Store) (value : Nat) :
    use.misses { s with counters := s.counters.insert use.counter value } = false :=
  CounterUse.misses_of_get?_ne_none (by simp)

/-- **A turn of the user** uses up one of those that are left. -/
theorem Acts.turnsLeft_lt (h : Acts use s p calls p' s') (hopen : p.IsOpen) :
    p'.turnsLeft use s' < p.turnsLeft use s := by
  cases h with
  | misses hmisses => simp [Phase.turnsLeft, Phase.loopsLeft, hmisses]
  | reads hstands =>
    simp only [Phase.turnsLeft, Phase.loopsLeft, if_pos hstands]
    split <;> omega
  | readsLast =>
    simp only [Phase.turnsLeft, Phase.loopsLeft]
    split <;> omega
  | creates => simp [Phase.turnsLeft, Phase.loopsLeft, misses_insert]
  | createsLate hget =>
    simp [Phase.turnsLeft, Phase.loopsLeft, CounterUse.misses_of_get?_ne_none hget]
  | writes =>
    simp only [Phase.turnsLeft]
    split <;> simp [Phase.loopsLeft]
  | writesLate hstands => simp [Phase.turnsLeft, Phase.loopsLeft, hstands]
  | retries => simp [Phase.turnsLeft, Phase.loopsLeft]
  | rests => exact absurd rfl (hopen _)

/-- **A turn of the user** uses up the loop that it begins, if it begins one. -/
theorem Acts.loopsLeft_le (h : Acts use s p calls p' s') :
    calls.countP (·.reads use.counter) + p'.loopsLeft use s' ≤ p.loopsLeft use s := by
  cases h with
  | misses hmisses => simp [Phase.loopsLeft, hmisses, Occurrence.reads]
  | reads hstands =>
    simp only [Phase.loopsLeft, if_pos hstands]
    split <;> simp [Occurrence.reads]
  | readsLast =>
    simp only [Phase.loopsLeft]
    split <;> simp [Occurrence.reads]
  | creates => simp [Phase.loopsLeft, misses_insert, Occurrence.reads]
  | createsLate hget =>
    simp [Phase.loopsLeft, CounterUse.misses_of_get?_ne_none hget, Occurrence.reads]
  | writes hcurrent hsucceeds =>
    cases use <;> simp [Phase.loopsLeft, CounterUse.update, Occurrence.reads]
  | writesLate hstands =>
    cases use <;> simp [Phase.loopsLeft, hstands, CounterUse.update, Occurrence.reads]
  | retries => simp [Phase.loopsLeft]
  | rests => exact le_rfl

/-! ### Turns of rivals -/

/-- **What a rival does to a user**: it moves the counter on, or what the user would find is still
there. -/
theorem competes_cases (h : s.Competes use.counter s') :
    (s.counter use.counter < s'.counter use.counter ∧ use.misses s' = false) ∨
      s.counter use.counter = s'.counter use.counter ∧
        (use.misses s' = true → use.misses s = true) ∧
        ∀ current, use.stands s current = true → use.stands s' current = true := by
  cases h with
  | keeps heq =>
    refine Or.inr ⟨(congrArg (Option.getD · 0) heq).symm, ?_, fun current => ?_⟩
    · rw [CounterUse.misses_congr heq]
      exact id
    · rw [CounterUse.stands_congr heq]
      exact id
  | creates hnone hzero =>
    have hcounter : s.counter use.counter = s'.counter use.counter := by
      rw [Store.counter, hnone, Store.counter, hzero, Option.getD_none, Option.getD_some]
    have hmisses : use.misses s' = false :=
      CounterUse.misses_of_get?_ne_none (hzero ▸ Option.some_ne_none 0)
    refine Or.inr ⟨hcounter, fun h => absurd (hmisses.symm.trans h) Bool.false_ne_true, ?_⟩
    intro current hstands
    have hcurrent := CounterUse.counter_of_stands hstands
    rw [hcounter] at hcurrent
    exact hcurrent ▸ CounterUse.stands_of_misses hmisses
  | advances hlt =>
    refine Or.inl ⟨hlt, CounterUse.misses_of_get?_ne_none fun hnone => ?_⟩
    have hzero : s'.counter use.counter = 0 := congrArg (Option.getD · 0) hnone
    omega

/-- Whether a rival has moved the counter on. -/
def advance (name : String) (s s' : Store) : Nat :=
  if s.counter name < s'.counter name then 1 else 0

/-- **A rival that moves the counter on** makes up for a loop of the user. -/
theorem loopsLeft_le_of_competes (h : s.Competes use.counter s') (p : Phase) :
    p.loopsLeft use s' ≤ p.loopsLeft use s + advance use.counter s s' := by
  rcases competes_cases h with ⟨hlt, hmisses⟩ | ⟨heq, hmisses, hstands⟩
  · rw [advance, if_pos hlt]
    cases p with
    | holding current =>
      simp only [Phase.loopsLeft, hmisses]
      split <;> simp
    | _ => simp [Phase.loopsLeft, hmisses]
  · have hfresh : (if use.misses s' then 2 else 1) ≤ if use.misses s then 2 else 1 := by
      split
      · next hmisses' => rw [if_pos (hmisses hmisses')]
      · split <;> omega
    refine Nat.le_add_right_of_le ?_
    cases p with
    | reading | retrying => exact hfresh
    | holding current =>
      simp only [Phase.loopsLeft]
      by_cases hcurrent : use.stands s current = true
      · rw [if_pos (hstands current hcurrent)]
        exact Nat.zero_le _
      · rw [if_neg hcurrent]
        split
        · exact Nat.zero_le _
        · exact hfresh
    | creating | done => exact le_rfl

/-- **A rival that moves the counter on** makes up for three turns of the user. -/
theorem turnsLeft_le_of_competes (h : s.Competes use.counter s') (p : Phase) :
    p.turnsLeft use s' ≤ p.turnsLeft use s + 3 * advance use.counter s s' := by
  have hloops := loopsLeft_le_of_competes h p
  cases p with
  | holding current =>
    simp only [Phase.turnsLeft]
    rcases competes_cases h with ⟨hlt, -⟩ | ⟨-, -, hstands⟩
    · rw [advance, if_pos hlt] at *
      split <;> split <;> omega
    · have := hstands current
      split <;> split <;> first | omega | exact absurd (this ‹_›) ‹_›
  | _ =>
    simp only [Phase.turnsLeft]
    omega

/-! ### What is known in each phase -/

/-- A write that came too late: a rival has moved the counter on since the number was read. -/
def Excused (use : CounterUse) (earlier : List Occurrence) (o : Occurrence) : Prop :=
  ∃ r current, lastOwn? earlier = some r ∧ r.ReadsAs use.counter current ∧
    o.call = use.update current ∧ ∃ a ∈ rivalsSince earlier, a.advances use.counter = true

/-- **The one write that was made**, and made from the number that was read last. -/
structure Written (use : CounterUse) (calls : List Occurrence)
    (result : List Nat × List Event) (o : Occurrence) (current : Nat) : Prop where
  /-- It is the last call of the user. -/
  last : lastOwn? calls = some o
  /-- It is the only write of the user that was made. -/
  only : calls.filter (·.succeeds) = [o]
  /-- The call of the user before it was the reading of the number. -/
  based : ∃ earlier r, (o :: earlier) <:+ calls ∧ lastOwn? earlier = some r ∧
    r.ReadsAs use.counter current
  /-- The write is the one of a user that has read the number. -/
  call_eq : o.call = use.update current
  /-- The counter still stood there, unless there was nothing to write. -/
  counter_eq : result.1 ≠ [] → o.before.counter use.counter = current
  /-- The counter is moved on by as many numbers as the user is given, and the events are stored;
  nothing else of the counters and the events is changed. -/
  handsOut : o.before.HandsOut use.counter result.1.length result.2 o.after
  /-- The user is given the numbers after the one that it has read. -/
  result_eq : result = use.yield current

/-- **What is known in each phase.** -/
inductive Known (use : CounterUse) (s : Store) (calls : List Occurrence) : Phase → Prop
  | reading : Known use s calls .reading
  | retrying : Known use s calls .retrying
  /-- The user has found no counter; if there is one now, a rival has made it. -/
  | creating {r} : lastOwn? calls = some r → r.reads use.counter = true →
    r.before.counters.get? use.counter = none →
    (s.counters.get? use.counter ≠ none → ∃ a ∈ rivalsSince calls, a.Creates use.counter) →
    Known use s calls .creating
  /-- The user has read a number; if the counter does not stand there now, a rival has moved it. -/
  | holding {r current} : lastOwn? calls = some r → r.ReadsAs use.counter current →
    (use.stands s current = false →
      ∃ a ∈ rivalsSince calls, a.advances use.counter = true) →
    Known use s calls (.holding current)
  /-- The write was made. -/
  | written {result o current} : Written use calls result o current →
    Known use s calls (.done (.ok result))
  /-- The user has read the greatest number. -/
  | failed {r} : lastOwn? calls = some r → r.ReadsAs use.counter Text.maxWord →
    Known use s calls (.done (.error (.outOfRange "sequence" Text.maxWord)))

/-- **What holds while a user is at work.** -/
structure Kept (use : CounterUse) (turns : Nat) (x : Contest) (p : Phase) : Prop where
  /-- The phase. -/
  phase : At use x.user p
  /-- The indexes describe the events. -/
  coherent : x.store.events.Coherent
  /-- The counter is a word. -/
  counter_le : p.IsOpen → x.store.counter use.counter ≤ Text.maxWord
  /-- Loops are begun and kept in reserve no more than rivals allow. -/
  loops_le : x.loops use.counter + p.loopsLeft use x.store ≤
    x.advances use.counter + use.patience
  /-- So are turns. -/
  turns_le : p.IsOpen →
    turns + p.turnsLeft use x.store ≤ 3 * x.advances use.counter + 2 * use.patience
  /-- What is known. -/
  known : Known use x.store x.calls p
  /-- No write was made before the end. -/
  unwritten : (∀ result, p ≠ .done (.ok result)) → x.calls.filter (·.succeeds) = []
  /-- Writes that came too late are excused. -/
  excused : ∀ o earlier, (o :: earlier) <:+ x.calls → o.updates = true → o.made? = some false →
    Excused use earlier o
  /-- So are counters that were made too late. -/
  created : ∀ o earlier, (o :: earlier) <:+ x.calls → o.own = true →
    o.call = .insertCounter use.counter 0 → o.made? = some false →
    ∃ a ∈ rivalsSince earlier, a.Creates use.counter
  /-- No other call of the user changes anything but the making of the counter. -/
  idle : ∀ o ∈ x.calls, o.own = true → o.succeeds = false → o.after = o.before ∨
    o.call = .insertCounter use.counter 0 ∧ o.before.counters.get? use.counter = none ∧
      o.after = { o.before with counters := o.before.counters.insert use.counter 0 }

/-! ### Turns keep what holds -/

theorem kept_start {use : CounterUse} {s : Store} (hs : s.events.Coherent)
    (hle : s.counter use.counter ≤ Text.maxWord) :
    Kept use 0 ⟨.start use, s, []⟩ .reading where
  phase := at_start use
  coherent := hs
  counter_le _ := hle
  loops_le := by
    cases use with
    | allocation =>
      simp only [Phase.loopsLeft]
      split <;> exact Nat.le_of_ble_eq_true rfl
    | commit => exact le_rfl
  turns_le _ := by
    cases use with
    | allocation =>
      simp only [Phase.turnsLeft, Phase.loopsLeft]
      split <;> exact Nat.le_of_ble_eq_true rfl
    | commit => exact le_rfl
  known := .reading
  unwritten _ := rfl
  excused o earlier h := absurd (List.suffix_nil.mp h) (List.cons_ne_nil _ _)
  created o earlier h := absurd (List.suffix_nil.mp h) (List.cons_ne_nil _ _)
  idle o ho := absurd ho List.not_mem_nil

variable {x : Contest} {turns : Nat} {call : Call}

theorem Written.rival {result : List Nat × List Event} {o : Occurrence} {current : Nat}
    (h : Written use calls result o current) (call : Call) (s : Store) :
    Written use (⟨false, call, s⟩ :: calls) result o current where
  last := h.last
  only := h.only
  based := by
    obtain ⟨earlier, r, hsuffix, hr⟩ := h.based
    exact ⟨earlier, r, hsuffix.trans (List.suffix_cons _ _), hr⟩
  call_eq := h.call_eq
  counter_eq := h.counter_eq
  handsOut := h.handsOut
  result_eq := h.result_eq

/-- **What is known stays known**, whatever a rival does. -/
theorem Known.rival (h : Known use s calls p)
    (hfair : s.Competes use.counter (call.perform s).2) :
    Known use (call.perform s).2 (⟨false, call, s⟩ :: calls) p := by
  cases h with
  | reading => exact .reading
  | retrying => exact .retrying
  | creating hlast hreads hnone hmade =>
    refine .creating hlast hreads hnone fun hne => ?_
    by_cases hget : s.counters.get? use.counter = none
    · exact ⟨_, List.mem_cons_self, hget, hne⟩
    · obtain ⟨a, ha, hcreates⟩ := hmade hget
      exact ⟨a, List.mem_cons_of_mem _ ha, hcreates⟩
  | holding hlast hreads hmoved =>
    refine .holding hlast hreads fun hstands => ?_
    rcases competes_cases hfair with ⟨hlt, -⟩ | ⟨-, -, hkeeps⟩
    · exact ⟨_, List.mem_cons_self, decide_eq_true hlt⟩
    · have hbefore := Bool.eq_false_iff.mpr fun h => Bool.false_ne_true
        (hstands.symm.trans (hkeeps _ h))
      obtain ⟨a, ha, hadvances⟩ := hmoved hbefore
      exact ⟨a, List.mem_cons_of_mem _ ha, hadvances⟩
  | written hwritten => exact .written (hwritten.rival call s)
  | failed hlast hreads => exact .failed hlast hreads

/-- **A turn of a rival** keeps what holds. -/
theorem Kept.rival (h : Kept use turns x p)
    (hfair : Occurrence.Fair use.counter ⟨false, call, x.store⟩) :
    Kept use turns (x.turn (.rival call)) p := by
  have hcompetes : x.store.Competes use.counter (call.perform x.store).2 := hfair.rival rfl
  have hloops : (x.turn (.rival call)).loops use.counter = x.loops use.counter :=
    List.countP_cons_of_neg Bool.false_ne_true
  have hadvances : (x.turn (.rival call)).advances use.counter =
      x.advances use.counter + advance use.counter x.store (call.perform x.store).2 := by
    rw [advances, turn, List.countP_cons]
    exact congrArg (_ + ·) (if_congr decide_eq_true_iff rfl rfl)
  have hleft := loopsLeft_le_of_competes hcompetes p
  have hturns := turnsLeft_le_of_competes hcompetes p
  refine ⟨h.phase, call.perform_coherent h.coherent, fun hopen => ?_, ?_, fun hopen => ?_,
    h.known.rival hcompetes, h.unwritten, ?_, ?_, ?_⟩
  · have hle := h.counter_le hopen
    cases hcompetes with
    | keeps heq => exact (congrArg (Option.getD · 0) heq).trans_le hle
    | creates _ hzero => exact (congrArg (Option.getD · 0) hzero).trans_le (Nat.zero_le _)
    | advances _ hword => exact hword
  · have := h.loops_le
    rw [hloops, hadvances]
    exact (Nat.add_le_add_left hleft _).trans (by omega)
  · have := h.turns_le hopen
    rw [hadvances]
    exact (Nat.add_le_add_left hturns _).trans (by omega)
  · intro o earlier hsuffix hupdates
    rcases List.suffix_cons_iff.mp hsuffix with heq | hold
    · obtain ⟨rfl, rfl⟩ := List.cons.inj heq
      exact absurd hupdates Bool.false_ne_true
    · exact h.excused o earlier hold hupdates
  · intro o earlier hsuffix hown
    rcases List.suffix_cons_iff.mp hsuffix with heq | hold
    · obtain ⟨rfl, rfl⟩ := List.cons.inj heq
      exact absurd hown Bool.false_ne_true
    · exact h.created o earlier hold hown
  · intro o ho hown
    rcases List.mem_cons.mp ho with rfl | hold
    · exact absurd hown Bool.false_ne_true
    · exact h.idle o hold hown

theorem mem_nextCall {o : Occurrence} (h : o ∈ nextCall u s) :
    o.own = true ∧ o.before = s ∧ o.after = (u.next.step none u s).2 := by
  unfold nextCall at h
  cases hnext : u.next with
  | asks call resume =>
    rw [hnext] at h
    obtain rfl := List.mem_singleton.mp h
    exact ⟨rfl, rfl, rfl⟩
  | _ =>
    rw [hnext] at h
    exact absurd h List.not_mem_nil

/-- The calls that were made up to one of them, when a user has taken a turn. -/
theorem suffix_nextCall {o : Occurrence} {earlier : List Occurrence}
    (h : (o :: earlier) <:+ nextCall u s ++ calls) :
    (o ∈ nextCall u s ∧ earlier = calls) ∨ (o :: earlier) <:+ calls := by
  unfold nextCall at h ⊢
  cases hnext : u.next with
  | asks call resume =>
    rw [hnext] at h
    rcases List.suffix_cons_iff.mp h with heq | hold
    · obtain ⟨rfl, rfl⟩ := List.cons.inj heq
      exact Or.inl ⟨List.mem_singleton_self _, rfl⟩
    · exact Or.inr hold
  | _ =>
    rw [hnext] at h
    exact Or.inr h

/-- A user that is done stays done. -/
theorem Acts.isOpen (h : Acts use s p calls p' s') (hopen : p'.IsOpen) : p.IsOpen := by
  cases h with
  | rests => exact hopen
  | _ => exact nofun

theorem Acts.counter_le (h : Acts use s p calls p' s') (hopen : p'.IsOpen)
    (hle : s.counter use.counter ≤ Text.maxWord) : s'.counter use.counter ≤ Text.maxWord := by
  cases h with
  | creates => simp [Store.counter]
  | writes => exact absurd rfl (hopen _)
  | _ => exact hle

section OwnTurn

variable {new : List Occurrence} (h : Acts use s p new p' s') (hafter : ∀ o ∈ new, o.after = s')

include h in
/-- **A turn with which numbers are handed out** is the last one. -/
theorem Acts.unwritten (hunwritten : (∀ result, p ≠ .done (.ok result)) →
      calls.filter (·.succeeds) = []) (hp' : ∀ result, p' ≠ .done (.ok result)) :
    (new ++ calls).filter (·.succeeds) = [] := by
  rw [List.filter_append]
  cases h with
  | writes => exact absurd rfl (hp' _)
  | rests => exact hunwritten hp'
  | writesLate _ hmade =>
    rw [hunwritten nofun, List.append_nil]
    simp [Occurrence.succeeds, hmade]
  | _ =>
    rw [hunwritten nofun]
    rfl

include h hafter in
/-- **What is known after a turn of the user.** -/
theorem Acts.known (hknown : Known use s calls p)
    (hle : p.IsOpen → s.counter use.counter ≤ Text.maxWord)
    (hunwritten : (∀ result, p ≠ .done (.ok result)) → calls.filter (·.succeeds) = []) :
    Known use s' (new ++ calls) p' := by
  cases h with
  | misses hmisses =>
    refine .creating (lastOwn?_own _ _ _) (by simp [Occurrence.reads])
      (CounterUse.get?_of_misses hmisses) fun hne => ?_
    exact absurd (CounterUse.get?_of_misses hmisses) hne
  | reads hstands =>
    refine .holding (lastOwn?_own _ _ _)
      ⟨by simp [Occurrence.reads], CounterUse.counter_of_stands hstands⟩ fun hmoved => ?_
    exact absurd (hstands.symm.trans hmoved) Bool.false_ne_true.symm
  | readsLast hcounter hlt =>
    have hlast := hle nofun
    obtain rfl := Nat.le_antisymm (hcounter ▸ hlast) (not_lt.mp hlt)
    exact .failed (lastOwn?_own _ _ _) ⟨by simp [Occurrence.reads], hcounter⟩
  | creates | createsLate | retries => exact .reading
  | writes hcurrent hsucceeds hgives =>
    cases hknown with
    | holding hlast hreads =>
      refine .written ⟨lastOwn?_own _ _ _, ?_, ⟨_, _, List.suffix_refl _, hlast, hreads⟩, rfl,
        hcurrent, ?_, rfl⟩
      · rw [List.singleton_append, List.filter_cons_of_pos hsucceeds, hunwritten nofun]
      · rwa [hafter _ (List.mem_singleton_self _)]
  | writesLate => exact .retrying
  | rests => exact hknown

include h in
/-- **A write that comes too late** is excused. -/
theorem Acts.excused (hknown : Known use s calls p) {o : Occurrence} (ho : o ∈ new)
    (hupdates : o.updates = true) (hmade : o.made? = some false) : Excused use calls o := by
  cases h with
  | writesLate hstands =>
    obtain rfl := List.mem_singleton.mp ho
    cases hknown with
    | holding hlast hreads hmoved => exact ⟨_, _, hlast, hreads, rfl, hmoved hstands⟩
  | writes _ hsucceeds =>
    obtain rfl := List.mem_singleton.mp ho
    simp [Occurrence.succeeds, hmade] at hsucceeds
  | retries | rests => exact absurd ho List.not_mem_nil
  | _ =>
    obtain rfl := List.mem_singleton.mp ho
    exact absurd hupdates Bool.false_ne_true

include h in
/-- **A counter that is made too late** was made by a rival. -/
theorem Acts.created (hknown : Known use s calls p) {o : Occurrence} (ho : o ∈ new)
    (hcall : o.call = .insertCounter use.counter 0) (hmade : o.made? = some false) :
    ∃ a ∈ rivalsSince calls, a.Creates use.counter := by
  cases h with
  | creates hnone =>
    obtain rfl := List.mem_singleton.mp ho
    simp [Occurrence.made?, Store.insertCounter, SortedMap.contains_eq_false_iff.mpr hnone] at hmade
  | createsLate hne =>
    cases hknown with
    | creating _ _ _ hcreated => exact hcreated hne
  | retries | rests => exact absurd ho List.not_mem_nil
  | writes | writesLate =>
    obtain rfl := List.mem_singleton.mp ho
    cases use <;> cases hcall
  | _ =>
    obtain rfl := List.mem_singleton.mp ho
    cases hcall

include h hafter in
/-- **A turn with which no numbers are handed out** changes nothing but the making of the
counter. -/
theorem Acts.idle {o : Occurrence} (ho : o ∈ new) (hbefore : o.before = s)
    (hsucceeds : o.succeeds = false) : o.after = o.before ∨
      o.call = .insertCounter use.counter 0 ∧ o.before.counters.get? use.counter = none ∧
        o.after = { o.before with counters := o.before.counters.insert use.counter 0 } := by
  rw [hafter o ho, hbefore]
  cases h with
  | creates hnone =>
    obtain rfl := List.mem_singleton.mp ho
    exact Or.inr ⟨rfl, hnone, rfl⟩
  | writes _ hmade =>
    obtain rfl := List.mem_singleton.mp ho
    exact absurd (hmade.symm.trans hsucceeds) Bool.false_ne_true.symm
  | _ => exact Or.inl rfl

end OwnTurn

/-- **A turn of the user** keeps what holds. -/
theorem Kept.own (h : Kept use turns x p) (hbuild : use.Consecutive)
    (hfair : ∀ o ∈ nextCall x.user x.store, o.Fair use.counter) :
    ∃ p', Kept use (turns + 1) (x.turn .own) p' := by
  obtain ⟨p', hat, hacts⟩ := acts_own h.phase h.coherent hbuild hfair
  obtain ⟨_, _, -, -, -, hgives⟩ := x.user.step_handsOut h.coherent
  have hafter := fun o ho => (mem_nextCall (o := o) (u := x.user) (s := x.store) ho).2.2
  have hloops : (x.turn .own).loops use.counter =
      (nextCall x.user x.store).countP (·.reads use.counter) + x.loops use.counter :=
    List.countP_append
  have hadvances : (x.turn .own).advances use.counter = x.advances use.counter := by
    have hnone : (nextCall x.user x.store).countP (·.advances use.counter) = 0 := by
      refine List.countP_eq_zero.mpr fun o ho => ?_
      rw [Occurrence.advances, (mem_nextCall ho).1]
      exact Bool.false_ne_true
    rw [advances, turn, List.countP_append, hnone, Nat.zero_add]
    rfl
  refine ⟨p', hat, hgives.coherent, fun hopen => ?_, ?_, fun hopen => ?_,
    hacts.known hafter h.known h.counter_le h.unwritten, hacts.unwritten h.unwritten, ?_, ?_, ?_⟩
  · exact hacts.counter_le hopen (h.counter_le (hacts.isOpen hopen))
  · have hbegun := hacts.loopsLeft_le
    have := h.loops_le
    rw [hloops, hadvances, Nat.add_right_comm]
    exact (Nat.add_le_add_right hbegun _).trans (by omega)
  · have htaken := hacts.turnsLeft_lt (hacts.isOpen hopen)
    have := h.turns_le (hacts.isOpen hopen)
    rw [hadvances, Nat.add_right_comm]
    exact (Nat.add_le_add_left htaken _).trans this
  · intro o earlier hsuffix hupdates hmade
    rcases suffix_nextCall hsuffix with ⟨ho, rfl⟩ | hold
    · exact hacts.excused h.known ho hupdates hmade
    · exact h.excused o earlier hold hupdates hmade
  · intro o earlier hsuffix hown hcall hmade
    rcases suffix_nextCall hsuffix with ⟨ho, rfl⟩ | hold
    · exact hacts.created h.known ho hcall hmade
    · exact h.created o earlier hold hown hcall hmade
  · intro o ho hown hsucceeds
    rcases List.mem_append.mp ho with hnew | hold
    · exact hacts.idle hafter hnew (mem_nextCall hnew).2.1 hsucceeds
    · exact h.idle o hold hown hsucceeds

/-- **What holds after any turns.** -/
theorem kept_after (hs : s.events.Coherent) (hle : s.counter use.counter ≤ Text.maxWord)
    (hbuild : use.Consecutive) (turns : List Turn)
    (hfair : ∀ o ∈ (after use s turns).calls, o.Fair use.counter) :
    ∃ p, Kept use (turns.count .own) (after use s turns) p := by
  induction turns with
  | nil => exact ⟨_, kept_start hs hle⟩
  | cons now earlier ih =>
    cases now with
    | own =>
      obtain ⟨p, hkept⟩ := ih fun o ho => hfair o (List.mem_append_right _ ho)
      rw [List.count_cons_self]
      exact hkept.own hbuild fun o ho => hfair o (List.mem_append_left _ ho)
    | rival call =>
      obtain ⟨p, hkept⟩ := ih fun o ho => hfair o (List.mem_cons_of_mem _ ho)
      rw [List.count_cons_of_ne (nofun : Turn.rival call ≠ .own)]
      exact ⟨p, hkept.rival (hfair _ List.mem_cons_self)⟩

/-! ### Every loop is paid for -/

/-- **A user whose loops are paid for by rivals.** The user has taken some turns, and `x` is what
is there. -/
structure Paid (use : CounterUse) (turns : Nat) (x : Contest) : Prop where
  /-- The loops that were begun. -/
  loops_le : x.loops use.counter ≤ x.advances use.counter + use.patience
  /-- The user is done when it has taken enough turns. -/
  ends : 3 * x.advances use.counter + 2 * use.patience ≤ turns → x.user.outcome?.isSome
  /-- Whenever a write comes too late, a rival has moved the counter on since it was read. -/
  excused : ∀ o earlier, (o :: earlier) <:+ x.calls → o.updates = true → o.made? = some false →
    Excused use earlier o
  /-- Whenever the counter is made too late, a rival has made it since it was found missing. -/
  created : ∀ o earlier, (o :: earlier) <:+ x.calls → o.own = true →
    o.call = .insertCounter use.counter 0 → o.made? = some false →
    ∃ a ∈ rivalsSince earlier, a.Creates use.counter
  /-- Calls of the user with which no numbers are handed out change nothing, but for the making of
  the counter at zero. -/
  idle : ∀ o ∈ x.calls, o.own = true → o.succeeds = false → o.after = o.before ∨
    o.call = .insertCounter use.counter 0 ∧ o.before.counters.get? use.counter = none ∧
      o.after = { o.before with counters := o.before.counters.insert use.counter 0 }
  /-- As long as the user is not done, none are handed out to it. -/
  unwritten : x.user.outcome? = none → x.calls.filter (·.succeeds) = []
  /-- A user that is given numbers has made one write, from the number that it read last. -/
  written : ∀ result, x.user.outcome? = some (.ok result) →
    ∃ o current, Written use x.calls result o current
  /-- The only error is that the greatest number was read, and then no numbers were handed out. -/
  failed : ∀ e, x.user.outcome? = some (.error e) → e = .outOfRange "sequence" Text.maxWord ∧
    (∃ r, lastOwn? x.calls = some r ∧ r.ReadsAs use.counter Text.maxWord) ∧
    x.calls.filter (·.succeeds) = []

theorem Kept.paid (h : Kept use turns x p) : Paid use turns x where
  loops_le := (Nat.le_add_right _ _).trans h.loops_le
  ends hturns := by
    refine Option.isSome_iff_ne_none.mpr fun hnone => ?_
    have hopen := h.phase.isOpen_iff.mpr hnone
    have hleft : 0 < p.turnsLeft use x.store := Phase.turnsLeft_pos hopen
    have := h.turns_le hopen
    omega
  excused := h.excused
  created := h.created
  idle := h.idle
  unwritten hnone := h.unwritten fun _ => h.phase.isOpen_iff.mpr hnone _
  written result hresult := by
    obtain rfl := h.phase.eq_done hresult
    cases h.known with
    | written hwritten => exact ⟨_, _, hwritten⟩
  failed e he := by
    obtain rfl := h.phase.eq_done he
    have hunwritten := h.unwritten nofun
    cases h.known with
    | failed hlast hreads => exact ⟨rfl, ⟨_, hlast, hreads⟩, hunwritten⟩

/-- **Every loop but the first ones is paid for by a rival.** A user takes a number from a counter,
or commits a batch at it, and rivals make any calls on the store between its turns, as long as they
do not set the counter back. Whatever turns were taken, the user has begun no more loops than the
rivals have moved the counter on, and one or two. When it is done, it has made one write from the
number that it read last, or has read the greatest number and was given none. -/
theorem retries_paid {use : CounterUse} {s : Store} (hs : s.events.Coherent)
    (hle : s.counter use.counter ≤ Text.maxWord) (hbuild : use.Consecutive) (turns : List Turn)
    {x : Contest} (hx : after use s turns = x) (hfair : ∀ o ∈ x.calls, o.Fair use.counter) :
    Paid use (turns.count .own) x := by
  subst hx
  obtain ⟨p, hkept⟩ := kept_after hs hle hbuild turns hfair
  exact hkept.paid

/-- A batch of two events. -/
def pair : Numbering := ⟨(Batch.ofNumbers 1 0 [20, 21]).placed, Batch.inRow_placed _⟩

/-- The user finds no counter, and a rival makes it; the user reads it, and a rival moves it on. -/
def twiceLate : List Turn :=
  [.own, .own, .own, .own, .rival (.advanceCounter "a" 0 1), .own, .own,
    .rival (.insertCounter "a" 0), .own]

/-- The user reads the counter, and a rival makes it and moves it on. -/
def onceLate : List Turn :=
  [.own, .own, .own, .own, .rival (.advanceCounter "a" 0 1), .rival (.insertCounter "a" 0), .own]

theorem retries_paid_late :
    let x := after (.allocation "a") .empty twiceLate
    let y := after (.commit "a" pair) .empty onceLate
    (x.user.outcome? = some (.ok ([2], [])) ∧ x.loops "a" = 3 ∧ x.advances "a" = 1 ∧
        Paid (.allocation "a") 7 x) ∧
      y.user.outcome? = some (.ok ([2, 3], pair.build 2)) ∧ y.loops "a" = 2 ∧
        y.advances "a" = 1 ∧ Paid (.commit "a" pair) 5 y := by
  refine ⟨⟨by decide +kernel, by decide +kernel, by decide +kernel, ?_⟩,
    by decide +kernel, by decide +kernel, by decide +kernel, ?_⟩
  · exact @retries_paid (.allocation "a") .empty EventTable.coherent_empty (Nat.zero_le _)
      trivial twiceLate _ rfl (by decide +kernel)
  · exact @retries_paid (.commit "a" pair) .empty EventTable.coherent_empty (Nat.zero_le _)
      (fun current => Draft.follow_placeAll _ _ current _) onceLate _ rfl (by decide +kernel)

end Contest

end EventJournal
