import EventJournal.Event
import Mathlib.Data.List.Basic

/-!
# Chronicles

What can be said at some time of the events of a log that a pipeline reads: which have been
stored, and which have been handled with success (`EventJournal.Chronicle`). A chronicle only
ever grows, and everything that is said in terms of it is said so that it stays true
(`EventJournal.Chronicle.HandledTo.mono`, `EventJournal.Chronicle.Reached.mono`).

Positions are spoken of by the events that have them. That a position has been handled is said
of one event (`EventJournal.Chronicle.HandledAt`), and means all that are there because there is
no other in a log in which the positions run without a gap.
-/

namespace EventJournal

/-- **What has come of the events**: which are stored, and which have been handled. -/
structure Chronicle where
  /-- The stored events. -/
  stored : Event → Prop
  /-- The events whose handler has done its work. -/
  handled : Event → Prop

namespace Chronicle

/-- A chronicle and a later one. -/
structure Grows (c c' : Chronicle) : Prop where
  /-- What is stored stays stored. -/
  stored : ∀ e, c.stored e → c'.stored e
  /-- What has been handled has been handled. -/
  handled : ∀ e, c.handled e → c'.handled e

/-- The event at a position has been handled. -/
def HandledAt (c : Chronicle) (p : Nat) : Prop := ∃ e, c.handled e ∧ e.position = p

/-- **All events up to a position have been handled.** -/
def HandledTo (c : Chronicle) (p : Nat) : Prop := ∀ q, 0 < q → q ≤ p → c.HandledAt q

/-- **An event that may be noted as progress**: it is stored, and it and all events before it
have been handled. -/
def Reached (c : Chronicle) (id : Uuid) : Prop :=
  ∃ e, c.stored e ∧ e.id = id ∧ c.HandledTo e.position

theorem Grows.refl (c : Chronicle) : c.Grows c := ⟨fun _ => id, fun _ => id⟩

theorem Grows.trans {c c' c'' : Chronicle} (h : c.Grows c') (h' : c'.Grows c'') : c.Grows c'' :=
  ⟨fun e he => h'.stored e (h.stored e he), fun e he => h'.handled e (h.handled e he)⟩

variable {c c' : Chronicle}

theorem HandledAt.mono {p : Nat} (h : c.HandledAt p) (hc : c.Grows c') : c'.HandledAt p := by
  obtain ⟨e, he, hp⟩ := h
  exact ⟨e, hc.handled e he, hp⟩

theorem HandledTo.mono {p : Nat} (h : c.HandledTo p) (hc : c.Grows c') : c'.HandledTo p :=
  fun q hpos hle => (h q hpos hle).mono hc

theorem Reached.mono {id : Uuid} (h : c.Reached id) (hc : c.Grows c') : c'.Reached id := by
  obtain ⟨e, he, hid, hto⟩ := h
  exact ⟨e, hc.stored e he, hid, hto.mono hc⟩

theorem handledTo_zero (c : Chronicle) : c.HandledTo 0 := fun _ hpos hle =>
  absurd hpos (Nat.not_lt.mpr hle)

/-- Positions beyond one up to which all has been handled. -/
theorem HandledTo.extend {base p : Nat} (h : c.HandledTo base)
    (hmore : ∀ n, 0 < n → base + n ≤ p → c.HandledAt (base + n)) : c.HandledTo p := by
  intro q hpos hle
  rcases Nat.lt_or_ge base q with hlt | hge
  · have hq : base + (q - base) = q := by omega
    exact hq ▸ hmore (q - base) (by omega) (by omega)
  · exact h q hpos hge

end Chronicle

end EventJournal
