import EventJournal.Proofs.Pipeline.Frontier
import Mathlib.Data.Finset.Sort
import Mathlib.Order.Interval.Finset.Nat

/-!
# The frontier as a function of what has finished

A frontier is told that numbers have finished, in any order, some of them several times, and now
and then that its progress has been noted (`EventJournal.Frontier.Report`). How far it is does not
depend on that order: it is a function of the set of the numbers.

With `p` the frontier and `q` the place where its stretch begins, every number after the base is
of one of three kinds.

| a number that has finished | is | counts since the stretch began |
|---|---|---|
| up to `q` | passed | no |
| beyond `q`, up to `p` | passed | yes, and all numbers here have finished |
| beyond `p` | pending | yes |

A new stretch moves `q` to `p`, and nothing else.
-/

namespace EventJournal

namespace Frontier

/-- **What a frontier is told.** -/
inductive Report
  /-- A number has finished. -/
  | finished (n : Nat)
  /-- The progress has been noted. -/
  | noted

/-- The frontier that was told some reports, the latest of them standing first. -/
def after (base : Nat) : (history : List Report) → Frontier
  | [] => ofPosition base
  | .finished n :: earlier => (after base earlier).finish n
  | .noted :: earlier => (after base earlier).clear

/-- The numbers that were reported. -/
def reported : (history : List Report) → Finset Nat
  | [] => ∅
  | .finished n :: earlier => insert n (reported earlier)
  | .noted :: earlier => reported earlier

/-- Where the frontier was when its progress was last noted, or at first. -/
def notedAt (base : Nat) : (history : List Report) → Nat
  | [] => base
  | .finished _ :: earlier => notedAt base earlier
  | .noted :: earlier => (after base earlier).position

variable {base n : Nat} {history : List Report}

@[simp] theorem mem_reported_cons_finished {m : Nat} :
    n ∈ reported (.finished m :: history) ↔ n = m ∨ n ∈ reported history :=
  Finset.mem_insert

/-! ### What reports keep -/

/-- A frontier is as far as it can be, whatever it is told. -/
theorem tight_after (base : Nat) (history : List Report) : (after base history).Tight := by
  induction history with
  | nil => exact tight_ofPosition base
  | cons report earlier ih =>
    cases report with
    | finished n => exact ih.finish n
    | noted => exact ih.clear

/-- Nothing counts as finished but what was reported, and the numbers up to the base. -/
theorem finished_after : (after base history).Finished n ↔ n ≤ base ∨ n ∈ reported history := by
  induction history with
  | nil => exact or_congr_right (iff_of_false List.not_mem_nil (Finset.notMem_empty n))
  | cons report earlier ih =>
    cases report with
    | finished m =>
      rw [mem_reported_cons_finished, or_left_comm, or_comm]
      exact finished_finish.trans (or_congr_left ih)
    | noted => exact finished_clear.trans ih

/-- The frontier and the beginning of its stretch are at the base or after it. -/
theorem base_le_after (base : Nat) (history : List Report) :
    base ≤ (after base history).start ∧ base ≤ (after base history).position := by
  induction history with
  | nil => exact ⟨Nat.le_refl _, Nat.le_refl _⟩
  | cons report earlier ih =>
    obtain ⟨hstart, hposition⟩ := ih
    cases report with
    | finished n =>
      refine ⟨?_, hposition.trans (position_le_finish _ n)⟩
      rwa [after, start_finish]
    | noted => exact ⟨hposition, hposition⟩

/-- A stretch begins where the frontier was when its progress was last noted. -/
theorem start_after (base : Nat) (history : List Report) :
    (after base history).start = notedAt base history := by
  induction history with
  | nil => rfl
  | cons report earlier ih =>
    cases report with
    | finished n => exact (start_finish _ n).trans ih
    | noted => rfl

/-- What is counted as passed is the whole stretch. -/
theorem folded_after (base : Nat) (history : List Report) :
    (after base history).folded = (after base history).length := by
  induction history with
  | nil => exact (Nat.sub_self base).symm
  | cons report earlier ih =>
    cases report with
    | finished n =>
      have hstart := (tight_after base earlier).start_le
      have hposition := position_le_finish (after base earlier) n
      rw [after, folded_finish, ih, length, length, start_finish]
      omega
    | noted => exact (Nat.sub_self _).symm

/-! ### The law -/

/-- **A frontier that is where some numbers put it**, its stretch beginning at `noted`. -/
structure Contiguous (base : Nat) (numbers : Finset Nat) (noted : Nat) (f : Frontier) : Prop where
  /-- It is the greatest place at the base or after it such that all numbers from the base up to
  there have finished. -/
  position_greatest :
    IsGreatest {p | base ≤ p ∧ ∀ n, base < n → n ≤ p → n ∈ numbers} f.position
  /-- The numbers beyond it are pending, each once, and no others. -/
  pending_eq : f.pending = (numbers.filter (f.position < ·)).sort
  /-- The stretch begins where the progress was last noted. -/
  start_eq : f.start = noted
  /-- That is not beyond the frontier, so that the length is a difference of numbers. -/
  start_le : f.start ≤ f.position
  /-- The length is how far the frontier has come since. -/
  length_eq : f.length = f.position - noted
  /-- The numbers beyond that place are counted, each once. -/
  count_eq : f.count = (numbers.filter (noted < ·)).card

/-- The numbers beyond `q` are those from there up to `p` and those beyond `p`, if all up to `p`
are there. -/
theorem card_filter_lt {numbers : Finset Nat} {q p : Nat} (hle : q ≤ p)
    (hall : ∀ n, q < n → n ≤ p → n ∈ numbers) :
    (numbers.filter (q < ·)).card = (p - q) + (numbers.filter (p < ·)).card := by
  have hsplit : numbers.filter (q < ·) = Finset.Ioc q p ∪ numbers.filter (p < ·) := by
    ext n
    rw [Finset.mem_union, Finset.mem_filter, Finset.mem_filter, Finset.mem_Ioc]
    constructor
    · rintro ⟨hn, hq⟩
      rcases Nat.lt_or_ge p n with hp | hp
      · exact Or.inr ⟨hn, hp⟩
      · exact Or.inl ⟨hq, hp⟩
    · rintro (⟨hq, hp⟩ | ⟨hn, hp⟩)
      · exact ⟨hall n hq hp, hq⟩
      · exact ⟨hn, hle.trans_lt hp⟩
  have hdisjoint : Disjoint (Finset.Ioc q p) (numbers.filter (p < ·)) := by
    refine Finset.disjoint_left.mpr fun n hn hbeyond => ?_
    exact absurd (Finset.mem_filter.mp hbeyond).2 (Nat.not_lt_of_le (Finset.mem_Ioc.mp hn).2)
  rw [hsplit, Finset.card_union_of_disjoint hdisjoint, Nat.card_Ioc]

/-- All numbers from the base up to the frontier were reported, and it is the last place of which
that is so. -/
theorem position_after_greatest (base : Nat) (history : List Report) :
    IsGreatest {p | base ≤ p ∧ ∀ n, base < n → n ≤ p → n ∈ reported history}
      (after base history).position := by
  refine ⟨⟨(base_le_after base history).2, fun n hbase hn => ?_⟩, ?_⟩
  · rcases finished_after.mp (Or.inl hn) with hle | hmem
    · exact absurd hbase (Nat.not_lt_of_le hle)
    · exact hmem
  · rintro p ⟨-, hall⟩
    refine Nat.le_of_not_lt fun hlt => (tight_after base history).not_finished_succ ?_
    -- the number right after the frontier would have been reported
    refine finished_after.mpr (Or.inr (hall _ ?_ hlt))
    exact Nat.lt_succ_of_le (base_le_after base history).2

/-- What is pending is what was reported and is beyond the frontier. -/
theorem pending_after (base : Nat) (history : List Report) :
    (after base history).pending =
      ((reported history).filter ((after base history).position < ·)).sort := by
  have htight := tight_after base history
  have hmem : (after base history).pending.toFinset =
      (reported history).filter ((after base history).position < ·) := by
    ext n
    rw [List.mem_toFinset, htight.mem_pending_iff, finished_after, Finset.mem_filter]
    refine and_congr_left fun hlt => or_iff_right ?_
    exact Nat.not_le_of_lt ((base_le_after base history).2.trans_lt hlt)
  have hnodup : (after base history).pending.Nodup :=
    htight.ascending.imp fun hlt => Nat.ne_of_lt hlt
  rw [← hmem]
  exact ((List.toFinset_sort (· ≤ ·) hnodup).mpr (htight.ascending.imp Nat.le_of_lt)).symm

/-- **The frontier is a function of the numbers that have finished.** -/
theorem contiguous_after (base : Nat) (history : List Report) :
    Contiguous base (reported history) (notedAt base history) (after base history) where
  position_greatest := position_after_greatest base history
  pending_eq := pending_after base history
  start_eq := start_after base history
  start_le := (tight_after base history).start_le
  length_eq := congrArg _ (start_after base history)
  count_eq := by
    have hle := (tight_after base history).start_le
    have hbase := (base_le_after base history).1
    have hall := (position_after_greatest base history).1.2
    rw [count, folded_after, length, pending_after, Finset.length_sort, ← start_after]
    exact (card_filter_lt hle fun n hn => hall n (hbase.trans_lt hn)).symm

/-- Neither the order of the numbers, nor how often each was reported, nor where the stretches
begin, has a part in where the frontier is. -/
theorem Contiguous.eq_of_numbers {numbers : Finset Nat} {q q' : Nat} {f f' : Frontier}
    (h : Contiguous base numbers q f) (h' : Contiguous base numbers q' f') :
    f.position = f'.position ∧ f.pending = f'.pending := by
  have hposition : f.position = f'.position :=
    h.position_greatest.unique h'.position_greatest
  refine ⟨hposition, ?_⟩
  rw [h.pending_eq, h'.pending_eq, hposition]

/-- **The frontier is where the numbers put it.** Whatever numbers were reported as finished, in
whatever order and however often, and whenever the progress was noted: the frontier is the last
place up to which all numbers after the base have finished, what has finished beyond it is
pending, and the length and the count of its stretch are those of the numbers since the progress
was last noted. Where it is and what is pending is the same after any other reports of the same
numbers. -/
theorem reference_law (base : Nat) (history : List Report) :
    Contiguous base (reported history) (notedAt base history) (after base history) ∧
      ∀ other, reported other = reported history →
        (after base other).position = (after base history).position ∧
          (after base other).pending = (after base history).pending := by
  refine ⟨contiguous_after base history, fun other hother => ?_⟩
  have hcontiguous := contiguous_after base other
  rw [hother] at hcontiguous
  exact hcontiguous.eq_of_numbers (contiguous_after base history)

/-- A gap that is closed when the progress has been noted, the latest report first: what was
pending is passed after all. -/
example :
    let f := after 0 [.finished 3, .noted, .finished 4, .finished 2, .finished 1]
    f.position = 4 ∧ f.pending = [] ∧ f.length = 2 ∧ f.count = 2 := by
  decide

end Frontier

end EventJournal
