import EventJournal.Pipeline.Frontier
import Mathlib.Data.List.Basic

/-!
# What the frontier makes of a finished number

A number counts as finished (`EventJournal.Frontier.Finished`) if the frontier has passed it or
it is pending. The frontier makes nothing up and loses nothing: after
`EventJournal.Frontier.finish` the same numbers count as finished as before, and the one that has
finished (`EventJournal.Frontier.finished_finish`), whether the pending numbers ascend or not.

If they do, then the frontier is as far as it can be (`EventJournal.Frontier.Tight`): the number
right after it has not finished. The two together say where the frontier is, namely at the last
number up to which all have finished (`EventJournal.Frontier.Tight.position_eq`).
-/

namespace EventJournal

namespace Frontier

/-- **A number that counts as finished.** -/
def Finished (f : Frontier) (n : Nat) : Prop := n ≤ f.position ∨ n ∈ f.pending

theorem mem_putNumber_iff {n m : Nat} {pending : List Nat} :
    m ∈ putNumber n pending ↔ m = n ∨ m ∈ pending := by
  induction pending with
  | nil => simp [putNumber]
  | cons k rest ih =>
    rw [putNumber]
    split
    · exact List.mem_cons
    · split
      · next hnk => simp [hnk]
      · rw [List.mem_cons, ih, List.mem_cons, or_left_comm]

/-- A frontier passes only what is pending right before it, and that it passes. -/
theorem pass_iff {position m : Nat} {pending : List Nat} :
    (m ≤ (pass position pending).1 ∨ m ∈ (pass position pending).2) ↔
      m ≤ position ∨ m ∈ pending := by
  induction pending generalizing position with
  | nil => rfl
  | cons n rest ih =>
    rw [pass]
    split
    · next hn =>
      rw [ih, List.mem_cons, ← or_assoc]
      refine or_congr_left ?_
      omega
    · rfl

/-- **What counts as finished after a number has finished.** -/
theorem finished_finish {f : Frontier} {n m : Nat} :
    (f.finish n).Finished m ↔ f.Finished m ∨ m = n := by
  rw [finish]
  split
  · next hn =>
    refine (or_iff_left_of_imp ?_).symm
    rintro rfl
    exact Or.inl hn
  · refine pass_iff.trans ?_
    rw [mem_putNumber_iff, ← or_assoc, or_right_comm]
    rfl

/-- A new stretch forgets nothing and adds nothing. -/
theorem finished_clear {f : Frontier} {n : Nat} : f.clear.Finished n ↔ f.Finished n := Iff.rfl

theorem le_pass (position : Nat) (pending : List Nat) : position ≤ (pass position pending).1 := by
  induction pending generalizing position with
  | nil => exact Nat.le_refl _
  | cons n rest ih =>
    rw [pass]
    split
    · next hn =>
      have := ih n
      omega
    · exact Nat.le_refl _

/-- The frontier does not go back. -/
theorem position_le_finish (f : Frontier) (n : Nat) : f.position ≤ (f.finish n).position := by
  rw [finish]
  split
  · exact Nat.le_refl _
  · exact le_pass _ _

@[simp] theorem start_finish (f : Frontier) (n : Nat) : (f.finish n).start = f.start := by
  rw [finish]
  split <;> rfl

/-- What is counted as passed is what the frontier has passed. -/
theorem folded_finish (f : Frontier) (n : Nat) :
    (f.finish n).folded = f.folded + ((f.finish n).position - f.position) := by
  rw [finish]
  split
  · rw [Nat.sub_self, Nat.add_zero]
  · rfl

/-! ### How far the frontier is -/

/-- **A frontier that is as far as it can be.** -/
structure Tight (f : Frontier) : Prop where
  /-- The pending numbers ascend. -/
  ascending : f.pending.Pairwise (· < ·)
  /-- The number right after the frontier is not among them. -/
  beyond : ∀ n ∈ f.pending, f.position + 1 < n
  /-- The stretch begins at the frontier or before it. -/
  start_le : f.start ≤ f.position

theorem tight_ofPosition (position : Nat) : (ofPosition position).Tight :=
  ⟨List.Pairwise.nil, nofun, Nat.le_refl _⟩

theorem putNumber_ascending {n : Nat} {pending : List Nat} (h : pending.Pairwise (· < ·)) :
    (putNumber n pending).Pairwise (· < ·) := by
  induction pending with
  | nil => exact List.pairwise_singleton _ _
  | cons k rest ih =>
    obtain ⟨hk, hrest⟩ := List.pairwise_cons.mp h
    rw [putNumber]
    split
    · next hlt =>
      refine List.pairwise_cons.mpr ⟨fun m hm => ?_, h⟩
      rcases List.mem_cons.mp hm with rfl | hm
      · exact hlt
      · exact Nat.lt_trans hlt (hk m hm)
    · split
      · exact h
      · refine List.pairwise_cons.mpr ⟨fun m hm => ?_, ih hrest⟩
        rcases mem_putNumber_iff.mp hm with rfl | hm
        · omega
        · exact hk m hm

/-- A frontier passes all that it can. -/
theorem pass_tight {position : Nat} {pending : List Nat} (h : pending.Pairwise (· < ·))
    (hlt : ∀ n ∈ pending, position < n) :
    (pass position pending).2.Pairwise (· < ·) ∧
      ∀ n ∈ (pass position pending).2, (pass position pending).1 + 1 < n := by
  induction pending generalizing position with
  | nil => exact ⟨List.Pairwise.nil, nofun⟩
  | cons k rest ih =>
    obtain ⟨hk, hrest⟩ := List.pairwise_cons.mp h
    rw [pass]
    split
    · exact ih hrest hk
    · next hpos =>
      have hfirst := hlt k List.mem_cons_self
      refine ⟨h, fun m hm => ?_⟩
      rcases List.mem_cons.mp hm with rfl | hm
      · omega
      · have := hk m hm
        omega

theorem Tight.finish {f : Frontier} (h : f.Tight) (n : Nat) : (f.finish n).Tight := by
  rw [Frontier.finish]
  split
  · exact h
  · next hn =>
    have hlt : ∀ m ∈ putNumber n f.pending, f.position < m := by
      intro m hm
      rcases mem_putNumber_iff.mp hm with rfl | hm
      · omega
      · have := h.beyond m hm
        omega
    obtain ⟨hasc, hbeyond⟩ := pass_tight (putNumber_ascending h.ascending) hlt
    exact ⟨hasc, hbeyond, Nat.le_trans h.start_le (le_pass _ _)⟩

theorem Tight.clear {f : Frontier} (h : f.Tight) : f.clear.Tight :=
  ⟨h.ascending, h.beyond, Nat.le_refl _⟩

theorem Tight.not_finished_succ {f : Frontier} (h : f.Tight) : ¬f.Finished (f.position + 1) := by
  rintro (hle | hmem)
  · omega
  · exact absurd (h.beyond _ hmem) (Nat.lt_irrefl _)

/-- The pending numbers are those that have finished and are beyond the frontier. -/
theorem Tight.mem_pending_iff {f : Frontier} (h : f.Tight) {n : Nat} :
    n ∈ f.pending ↔ f.Finished n ∧ f.position < n := by
  constructor
  · intro hn
    exact ⟨Or.inr hn, Nat.lt_of_succ_lt (h.beyond n hn)⟩
  · rintro ⟨hle | hn, hlt⟩
    · exact absurd hlt (Nat.not_lt_of_le hle)
    · exact hn

/-- **The frontier is at the last number up to which all have finished.** -/
theorem Tight.position_eq {f : Frontier} (h : f.Tight) {p : Nat}
    (hto : ∀ n, 0 < n → n ≤ p → f.Finished n) (hnext : ¬f.Finished (p + 1)) :
    f.position = p := by
  rcases Nat.lt_trichotomy f.position p with hlt | heq | hgt
  · exact absurd (hto _ (Nat.succ_pos _) hlt) h.not_finished_succ
  · exact heq
  · exact absurd (Or.inl hgt) hnext

end Frontier

end EventJournal
