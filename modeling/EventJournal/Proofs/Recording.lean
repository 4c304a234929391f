import EventJournal.Bench.Handler
import Mathlib.Data.List.Nodup
import Mathlib.Data.List.Perm.Basic

/-!
# What a recording handler notices

A recording handler is called for any elements, and the calls finish in any order. Which calls are
running, and which have finished, is told by the history of starts and finishes alone.

The handler counts the starts at which it is at the key already. But the keys that it is at are a
set: of two calls of one key, the first to finish takes the key with it, although the other is
still running. So what it knows of a key is only whether the last thing that happened to it was a
start, and of the starts while another call of the key is running it counts some:

| a start while another of the key is running | is counted | by |
|---|---|---|
| right after a start of the key | yes | `EventJournal.Recording.justBegan` |
| right after a finish of the key | no | `EventJournal.Recording.overlooked` |

The first of them is never overlooked: before it, no two calls of a key were running at once, and
then the handler is at a key exactly if a call of it is running. So it does notice whether there is
one (`EventJournal.Recording.overlaps_of_after`).
-/

namespace EventJournal

namespace Recording

/-! ### Histories -/

/-- **What happens to a recording handler.** -/
inductive Turn
  /-- It is called for an element. -/
  | start (e : Element)
  /-- Of the calls that are running, in the order of their starts, the one at a place finishes. -/
  | finish (i : Nat)

/-- The elements of the calls that are running, in the order of their starts. The latest of a
history stands first. -/
def running : (history : List Turn) → List Element
  | [] => []
  | .start e :: earlier => running earlier ++ [e]
  | .finish i :: earlier => (running earlier).eraseIdx i

/-- The elements of the calls that have finished, in the order in which they did. -/
def finished : (history : List Turn) → List Element
  | [] => []
  | .start _ :: earlier => finished earlier
  | .finish i :: earlier => finished earlier ++ (running earlier)[i]?.toList

/-- The elements that the handler was called for. -/
def started : (history : List Turn) → List Element
  | [] => []
  | .start e :: earlier => started earlier ++ [e]
  | .finish _ :: earlier => started earlier

/-- A recording handler after a history. -/
def after (delay : Nat) : (history : List Turn) → Handler
  | [] => { kind := .recording delay }
  | .start e :: earlier => ((after delay earlier).begin e).2
  | .finish i :: earlier =>
    match (running earlier)[i]? with
    | some e => ((after delay earlier).finish e).2
    | none => after delay earlier

/-- Whether a call of a key is running. -/
def isAt (key : Uuid) (history : List Turn) : Bool := (running history).any (·.key = key)

/-- Whether the last thing that happened to a key was a start. -/
def justBegan (key : Uuid) : (history : List Turn) → Bool
  | [] => false
  | .start e :: earlier => e.key = key || justBegan key earlier
  | .finish i :: earlier => justBegan key earlier && (running earlier)[i]?.all (·.key ≠ key)

/-- How many starts there were at which the key and what was before meet a condition. -/
def starts (p : Uuid → List Turn → Bool) : (history : List Turn) → Nat
  | [] => 0
  | .start e :: earlier => starts p earlier + (p e.key earlier).toNat
  | .finish _ :: earlier => starts p earlier

/-- **The starts while another call of the key was running.** -/
def overlapping (history : List Turn) : Nat := starts isAt history

/-- Those of them that are right after a finish of the key. -/
def overlooked (history : List Turn) : Nat :=
  starts (fun key earlier => isAt key earlier && !justBegan key earlier) history

/-- **No two calls of one key have ever been running at the same time.** -/
def Serial (history : List Turn) : Prop :=
  ∀ earlier, earlier <:+ history → ((running earlier).map (·.key)).Nodup

variable {history : List Turn} {key : Uuid}

theorem isAt_iff : isAt key history = true ↔ key ∈ (running history).map (·.key) := by
  simp [isAt, List.any_eq_true]

theorem isAt_start (e : Element) :
    isAt key (.start e :: history) = true ↔ e.key = key ∨ isAt key history = true := by
  simp [isAt, running, or_comm]

/-- What still runs after a finish stands at another place. -/
theorem isAt_finish (i : Nat) : isAt key (.finish i :: history) = true ↔
    ∃ j, j ≠ i ∧ ∃ e, (running history)[j]? = some e ∧ e.key = key := by
  simp only [isAt, running, List.any_eq_true, decide_eq_true_eq, List.mem_eraseIdx_iff_getElem?]
  constructor
  · rintro ⟨e, ⟨j, hne, hj⟩, he⟩
    exact ⟨j, hne, e, hj, he⟩
  · rintro ⟨j, hne, e, hj, he⟩
    exact ⟨e, ⟨j, hne, hj⟩, he⟩

theorem justBegan_start (e : Element) :
    justBegan key (.start e :: history) = true ↔ e.key = key ∨ justBegan key history = true := by
  simp [justBegan]

theorem justBegan_finish (i : Nat) : justBegan key (.finish i :: history) = true ↔
    justBegan key history = true ∧ ∀ e, (running history)[i]? = some e → e.key ≠ key := by
  simp [justBegan, Option.all_eq_true]

/-! ### Counting starts -/

/-- The starts that meet one of two conditions, of which no start meets both. -/
theorem starts_add {p q r : Uuid → List Turn → Bool}
    (h : ∀ key earlier, (p key earlier).toNat + (q key earlier).toNat = (r key earlier).toNat)
    (history : List Turn) : starts p history + starts q history = starts r history := by
  induction history with
  | nil => rfl
  | cons turn earlier ih =>
    cases turn with
    | start e =>
      have he := h e.key earlier
      simp only [starts]
      omega
    | finish i => exact ih

/-! ### Calls of one key at the same time -/

/-- A key that was last started is one that a call is running of. -/
theorem isAt_of_justBegan (h : justBegan key history = true) : isAt key history = true := by
  induction history with
  | nil => cases h
  | cons turn earlier ih =>
    cases turn with
    | start e => exact (isAt_start e).mpr ((justBegan_start e).mp h |>.imp_right ih)
    | finish i =>
      obtain ⟨hbegan, hother⟩ := (justBegan_finish i).mp h
      obtain ⟨e, he, hkey⟩ := List.mem_map.mp (isAt_iff.mp (ih hbegan))
      obtain ⟨j, hj⟩ := List.mem_iff_getElem?.mp he
      refine (isAt_finish i).mpr ⟨j, ?_, e, hj, hkey⟩
      rintro rfl
      exact hother e hj hkey

theorem serial_cons (turn : Turn) : Serial (turn :: history) ↔
    ((running (turn :: history)).map (·.key)).Nodup ∧ Serial history := by
  constructor
  · intro h
    exact ⟨h _ List.suffix_rfl, fun earlier he => h earlier (he.trans (List.suffix_cons _ _))⟩
  · rintro ⟨hnow, hbefore⟩ earlier he
    rcases List.suffix_cons_iff.mp he with rfl | he
    · exact hnow
    · exact hbefore earlier he

theorem Serial.nodup (h : Serial history) : ((running history).map (·.key)).Nodup :=
  h _ List.suffix_rfl

/-- Nothing but a start of a key that is running puts an end to it. -/
theorem serial_start (e : Element) :
    Serial (.start e :: history) ↔ Serial history ∧ isAt e.key history = false := by
  rw [serial_cons, and_comm, running, List.map_append, List.map_singleton,
    ← List.concat_eq_append, List.nodup_concat, ← isAt_iff, Bool.not_eq_true]
  exact ⟨fun h => ⟨h.1, h.2.1⟩, fun h => ⟨h.1, h.2, h.1.nodup⟩⟩

theorem serial_finish (i : Nat) : Serial (.finish i :: history) ↔ Serial history := by
  rw [serial_cons]
  refine ⟨And.right, fun h => ⟨?_, h⟩⟩
  exact h.nodup.sublist ((List.eraseIdx_sublist _ _).map _)

/-- **While no two calls of one key are running**, the last thing that happened to a key was a
start exactly if a call of it is running. -/
theorem Serial.justBegan_eq (h : Serial history) (key : Uuid) :
    justBegan key history = isAt key history := by
  refine Bool.eq_iff_iff.mpr ⟨isAt_of_justBegan, fun hat => ?_⟩
  induction history with
  | nil => cases hat
  | cons turn earlier ih =>
    cases turn with
    | start e =>
      have hserial := ((serial_start e).mp h).1
      exact (justBegan_start e).mpr ((isAt_start e).mp hat |>.imp_right (ih hserial))
    | finish i =>
      have hserial := (serial_finish i).mp h
      obtain ⟨j, hne, e, hj, rfl⟩ := (isAt_finish i).mp hat
      have hat' : isAt e.key earlier = true :=
        isAt_iff.mpr (List.mem_map_of_mem (List.mem_of_getElem? hj))
      refine (justBegan_finish i).mpr ⟨ih hserial hat', fun e' hi hkey => hne ?_⟩
      -- the call that finishes and one that still runs would be of one key
      have hi' : ((running earlier).map (·.key))[i]? = some e.key := by simp [hi, hkey]
      have hj' : ((running earlier).map (·.key))[j]? = some e.key := by simp [hj]
      exact (List.getElem?_inj (List.getElem?_eq_some_iff.mp hj').1 hserial.nodup).mp
        (hj'.trans hi'.symm)

theorem overlapping_eq_zero_iff : overlapping history = 0 ↔ Serial history := by
  induction history with
  | nil => simp [overlapping, starts, Serial, running]
  | cons turn earlier ih =>
    cases turn with
    | start e =>
      rw [serial_start, ← ih, overlapping, starts, Nat.add_eq_zero_iff]
      simp [overlapping]
    | finish i => rw [serial_finish, ← ih, overlapping, starts, overlapping]

/-- **The first of them is noticed**: if no start was right after a start of the key, then no two
calls of a key have been running at the same time. -/
theorem serial_of_starts_justBegan (h : starts justBegan history = 0) : Serial history := by
  induction history with
  | nil => simp [Serial, running]
  | cons turn earlier ih =>
    cases turn with
    | start e =>
      rw [starts, Nat.add_eq_zero_iff, Bool.toNat_eq_zero] at h
      have hserial := ih h.1
      exact (serial_start e).mpr ⟨hserial, hserial.justBegan_eq e.key ▸ h.2⟩
    | finish i => exact (serial_finish i).mpr (ih h)

/-- The starts right after a start of the key are some of those while another is running. -/
theorem starts_justBegan_add_overlooked (history : List Turn) :
    starts justBegan history + overlooked history = overlapping history := by
  refine starts_add (fun key earlier => ?_) history
  cases hbegan : justBegan key earlier with
  | true => rw [isAt_of_justBegan hbegan]; rfl
  | false => cases isAt key earlier <;> rfl

/-! ### What the handler remembers -/

/-- **A recording handler that remembers a history.** -/
structure Remembers (delay : Nat) (history : List Turn) (h : Handler) : Prop where
  /-- What it does. -/
  kind_eq : h.kind = .recording delay
  /-- What it has handled. -/
  seen_eq : h.seen = finished history
  /-- The keys that it is at. -/
  mem_active : ∀ key, key ∈ h.active ↔ justBegan key history = true
  /-- What it has counted. -/
  overlaps_eq : h.overlaps = starts justBegan history

variable {delay : Nat} {h : Handler}

/-- The handler is called. -/
theorem Remembers.begin (hh : Remembers delay history h) (e : Element) :
    Remembers delay (.start e :: history) (h.begin e).2 := by
  obtain ⟨hkind, hseen, hactive, hoverlaps⟩ := hh
  have hcontains : h.active.contains e.key = justBegan e.key history :=
    Bool.eq_iff_iff.mpr (List.contains_iff_mem.trans (hactive e.key))
  simp only [Handler.begin, hkind, Handler.enter, hcontains]
  split
  · next hbegan =>
    refine ⟨rfl, hseen, fun key => ?_, ?_⟩
    · rw [justBegan_start]
      refine (hactive key).trans ⟨Or.inr, ?_⟩
      rintro (rfl | h)
      · exact hbegan
      · exact h
    · simp [starts, hbegan, hoverlaps]
  · next hbegan =>
    refine ⟨rfl, hseen, fun key => ?_, ?_⟩
    · rw [justBegan_start, List.mem_cons, hactive key, @eq_comm _ key]
    · simp [starts, hbegan, hoverlaps]

/-- A call finishes. -/
theorem Remembers.finish (hh : Remembers delay history h) {i : Nat} {e : Element}
    (he : (running history)[i]? = some e) :
    Remembers delay (.finish i :: history) (h.finish e).2 := by
  obtain ⟨hkind, hseen, hactive, hoverlaps⟩ := hh
  simp only [Handler.finish, hkind, Handler.leave]
  refine ⟨rfl, by rw [hseen, finished, he]; rfl, fun key => ?_, hoverlaps⟩
  rw [justBegan_finish, List.mem_filter, hactive key, decide_eq_true_iff, he]
  refine and_congr_right fun _ => ⟨?_, fun hother => (hother e rfl).symm⟩
  rintro hne e' he'
  cases he'
  exact hne.symm

theorem remembers_after (delay : Nat) (history : List Turn) :
    Remembers delay history (after delay history) := by
  induction history with
  | nil => exact ⟨rfl, rfl, fun key => by simp [after, justBegan], rfl⟩
  | cons turn earlier ih =>
    cases turn with
    | start e => exact ih.begin e
    | finish i =>
      rw [after]
      split
      · next e he => exact ih.finish he
      · next hnone =>
        refine ⟨ih.kind_eq, by simp [finished, hnone, ih.seen_eq], fun key => ?_, ih.overlaps_eq⟩
        rw [justBegan_finish, hnone, ih.mem_active key]
        simp

/-- Each call is either running or has finished. -/
theorem finished_running_perm (history : List Turn) :
    (finished history ++ running history).Perm (started history) := by
  induction history with
  | nil => exact .nil
  | cons turn earlier ih =>
    cases turn with
    | start e =>
      rw [finished, running, started, ← List.append_assoc]
      exact ih.append_right [e]
    | finish i =>
      rw [finished, running, started, List.append_assoc]
      refine (List.Perm.append_left _ ?_).trans ih
      cases he : (running earlier)[i]? with
      | none => rw [List.eraseIdx_of_length_le (List.getElem?_eq_none_iff.mp he)]; rfl
      | some e =>
        obtain ⟨hi, rfl⟩ := List.getElem?_eq_some_iff.mp he
        exact List.getElem_cons_eraseIdx_perm hi

/-- **What a recording handler has noticed**, whatever it is called for, and in whatever order the
calls finish:

* it has counted the starts right after a start of the key;
* with the overlooked ones, which are right after a finish of the key, these are the starts while
  another call of the key was running;
* it has counted none exactly if there were none, that is, if no two calls of one key have ever
  been running at the same time;
* it has seen the elements of the calls that have finished, in the order in which they did, and
  these are all but those of the calls that are running. -/
theorem overlaps_of_after (delay : Nat) (history : List Turn) :
    (after delay history).overlaps = starts justBegan history ∧
      (after delay history).overlaps + overlooked history = overlapping history ∧
      ((after delay history).overlaps = 0 ↔ overlapping history = 0) ∧
      ((after delay history).overlaps = 0 ↔ Serial history) ∧
      (after delay history).seen = finished history ∧
      (finished history ++ running history).Perm (started history) := by
  have hremembers := remembers_after delay history
  have hadd := starts_justBegan_add_overlooked history
  have hserial : (after delay history).overlaps = 0 ↔ Serial history := by
    rw [hremembers.overlaps_eq]
    refine ⟨serial_of_starts_justBegan, fun h => ?_⟩
    have hzero := overlapping_eq_zero_iff.mpr h
    omega
  exact ⟨hremembers.overlaps_eq, hremembers.overlaps_eq ▸ hadd,
    hserial.trans overlapping_eq_zero_iff.symm, hserial, hremembers.seen_eq,
    finished_running_perm history⟩

/-- Elements of one key. -/
def ofOneKey (n : Nat) : Element :=
  ⟨n, .ofNat 7, (Draft.ofBytes (.ofNat n) .epoch "" []).place (.ofNat 7) n n⟩

/-- The second call starts while the first is running, and the third while the second is, but
after the first has finished. -/
def relay : List Turn := [.start (ofOneKey 3), .finish 0, .start (ofOneKey 2), .start (ofOneKey 1)]

/-- Both the second and the third overlap, and only the second is counted. -/
theorem overlaps_relay : (after 5 relay).overlaps = 1 ∧ overlapping relay = 2 := by decide

end Recording

end EventJournal
