import EventJournal.Log.Read
import Mathlib.Algebra.GroupWithZero.Nat
import Mathlib.Data.List.Basic

/-!
# Procedures beside each other

What can happen when procedures run beside each other on one store, in any order of their
steps (`EventJournal.Interleaving`). A step is at most one call on the store, and calls are
atomic; so a run is told by saying, step by step, which of the procedures goes on. Every
order of steps is a *schedule*, a list of the numbers of the procedures, and there is nothing
else to choose: what holds for all schedules holds however the procedures are delayed,
overtaken or left standing.

A procedure whose turn never comes has not begun, so a schedule also says when each of them
begins, and whether it does.
-/

namespace EventJournal

namespace Progress

variable {σ τ ρ π : Type}

/-- A step of a procedure that is part of a larger one. -/
theorem step_within (fault : Option StoreError) {p : Progress σ ρ} (hp : p.result? = none)
    (embed : σ → τ) (proceed : ρ → Progress τ π) (state : σ) (outer : τ) (s : Store) :
    (p.within embed proceed).step fault outer s =
      (embed (p.step fault state s).1, (p.step fault state s).2) := by
  cases p with
  | finished result => exact nomatch hp
  | asks call resume => cases fault <;> rfl
  | warns warning rest => rfl
  | yields rest => rfl
  | moves rest => rfl

/-- A step of a procedure that is all there is to a larger one. -/
theorem step_within_finished (fault : Option StoreError) (p : Progress σ ρ) (embed : σ → τ)
    (f : ρ → π) (state : σ) (s : Store) :
    (p.within embed fun r => finished (f r)).step fault (embed state) s =
      (embed (p.step fault state s).1, (p.step fault state s).2) := by
  cases p with
  | asks call resume => cases fault <;> rfl
  | _ => rfl

theorem within_of_result? {p : Progress σ ρ} {result : ρ} (hp : p.result? = some result)
    (embed : σ → τ) (proceed : ρ → Progress τ π) : p.within embed proceed = proceed result := by
  cases p with
  | finished r => exact congrArg proceed (Option.some.inj hp)
  | _ => exact nomatch hp

/-- **A procedure whose next step**, if it is a call, is a call of some kind. -/
def Calls (P : Call → Prop) (p : Progress σ ρ) : Prop :=
  ∀ call resume, p = asks call resume → P call

variable {P : Call → Prop}

theorem calls_asks {call : Call} (h : P call) (resume : Except StoreError call.Answer → σ) :
    (asks call resume : Progress σ ρ).Calls P := by
  rintro _ _ heq
  cases heq
  exact h

theorem calls_finished (result : ρ) : (finished result : Progress σ ρ).Calls P := nofun

theorem calls_moves (rest : σ) : (moves rest : Progress σ ρ).Calls P := nofun

theorem Calls.within {p : Progress σ ρ} (h : p.Calls P) {embed : σ → τ}
    {proceed : ρ → Progress τ π} (hproceed : ∀ r, p = finished r → (proceed r).Calls P) :
    (p.within embed proceed).Calls P := by
  cases p with
  | finished result => exact hproceed result rfl
  | asks call resume => exact calls_asks (h _ _ rfl) _
  | _ => exact nofun

/-- The store after a step of a procedure is the one that its call leaves, if it makes one. -/
theorem Calls.step_store {p : Progress σ ρ} (h : p.Calls P) (fault : Option StoreError)
    (state : σ) (s : Store) :
    (p.step fault state s).2 = s ∨
      ∃ call, P call ∧ (p.step fault state s).2 = (call.perform s).2 := by
  cases p with
  | asks call resume =>
    cases fault with
    | none => exact Or.inr ⟨call, h _ _ rfl, rfl⟩
    | some e => exact Or.inl rfl
  | _ => exact Or.inl rfl

/-- A procedure that nothing else runs beside takes its steps one after another, until it has
a result. -/
theorem runAlone_succ (next : σ → Progress σ ρ) (fuel : Nat) (state : σ) (s : Store) :
    (runAlone next (fuel + 1) state s).map (fun r => (r.1, r.2.2)) =
      match (next state).result? with
      | some result => some (result, s)
      | none =>
        (runAlone next fuel ((next state).step none state s).1
          ((next state).step none state s).2).map fun r => (r.1, r.2.2) := by
  rw [runAlone]
  cases next state with
  | finished result => rfl
  | asks call resume => rfl
  | warns warning rest =>
    simp only [step, result?, Option.map_map]
    rfl
  | yields rest => rfl
  | moves rest => rfl

/-- Alone, the procedure ends within `fuel` steps, with the result `r` and the store `s'`. -/
def Ends (next : σ → Progress σ ρ) (fuel : Nat) (state : σ) (s : Store) (r : ρ) (s' : Store) :
    Prop :=
  ∃ warnings, runAlone next fuel state s = some (r, warnings, s')

section Ends

variable {next : σ → Progress σ ρ} {fuel : Nat} {state : σ} {s s' : Store} {r : ρ}

theorem ends_iff : Ends next fuel state s r s' ↔
    (runAlone next fuel state s).map (fun r => (r.1, r.2.2)) = some (r, s') := by
  constructor
  · rintro ⟨warnings, h⟩
    rw [h]
    rfl
  · intro h
    obtain ⟨⟨r', warnings, s''⟩, hrun, heq⟩ := Option.map_eq_some_iff.mp h
    cases heq
    exact ⟨warnings, hrun⟩

theorem not_ends_zero : ¬Ends next 0 state s r s' := fun ⟨_, h⟩ => nomatch h

theorem ends_of_result? (h : (next state).result? = some r) :
    Ends next (fuel + 1) state s r s := by
  rw [ends_iff, runAlone_succ, h]

theorem ends_succ_of_result? (h : (next state).result? = some r) {r' : ρ} :
    Ends next (fuel + 1) state s r' s' ↔ r' = r ∧ s' = s := by
  rw [ends_iff, runAlone_succ, h]
  simp only [Option.some.injEq, Prod.mk.injEq, eq_comm]

theorem ends_succ_of_none (h : (next state).result? = none) :
    Ends next (fuel + 1) state s r s' ↔ Ends next fuel ((next state).step none state s).1
      ((next state).step none state s).2 r s' := by
  rw [ends_iff, runAlone_succ, h, ends_iff]

/-- A procedure that has ended takes no more steps. -/
theorem Ends.add (h : Ends next fuel state s r s') (more : Nat) :
    Ends next (more + fuel) state s r s' := by
  induction fuel generalizing state s with
  | zero => exact absurd h not_ends_zero
  | succ fuel ih =>
    rw [← Nat.add_assoc]
    cases hr : (next state).result? with
    | some result => exact (ends_succ_of_result? hr).mpr ((ends_succ_of_result? hr).mp h)
    | none => exact (ends_succ_of_none hr).mpr (ih ((ends_succ_of_none hr).mp h))

/-- **One procedure after another**: a larger procedure that goes through a smaller one, and from
its result on by itself, ends when both have. -/
theorem Ends.within (h : Ends next fuel state s r s') {outer : τ → Progress τ π} {embed : σ → τ}
    {goOn : ρ → τ} (houter : ∀ a, outer (embed a) = (next a).within embed fun r => moves (goOn r))
    {more : Nat} {r' : π} {s'' : Store} (hrest : Ends outer more (goOn r) s' r' s'') :
    Ends outer (fuel + more) (embed state) s r' s'' := by
  induction fuel generalizing state s with
  | zero => exact absurd h not_ends_zero
  | succ fuel ih =>
    rw [Nat.succ_add]
    have hstep := houter state
    cases hr : (next state).result? with
    | some result =>
      obtain ⟨rfl, rfl⟩ := (ends_succ_of_result? hr).mp h
      rw [within_of_result? hr] at hstep
      refine (ends_succ_of_none (by rw [hstep]; rfl)).mpr ?_
      rw [hstep]
      exact hrest.add fuel
    | none =>
      have hnone : (outer (embed state)).result? = none := by
        rw [hstep]
        cases hnext : next state with
        | finished result =>
          rw [hnext] at hr
          cases hr
        | _ => rfl
      refine (ends_succ_of_none hnone).mpr ?_
      rw [hstep, step_within none hr embed _ state]
      exact ih ((ends_succ_of_none hr).mp h)

end Ends

end Progress

/-! ### Reads -/

section Reads

variable {P : Call → Prop}

/-- The search for a position asks for positions. -/
theorem Locating.next_calls (hposition : ∀ event, P (.positionOf event)) (search : Locating) :
    search.next.Calls P := by
  cases search with
  | asking event => exact Progress.calls_asks (hposition event) _
  | unknown => exact nofun
  | done result => exact Progress.calls_finished _

/-- A read asks for events, and perhaps for the position after which it reads. -/
theorem Reading.next_calls
    (hstream : ∀ stream first last, P (.eventsOfStream stream first last))
    (hafter : ∀ position limit, P (.eventsAfter position limit))
    (hposition : ∀ event, P (.positionOf event)) (reading : Reading) : reading.next.Calls P := by
  cases reading with
  | ofStream stream first last =>
    simp only [next]
    split
    · exact Progress.calls_finished _
    · exact Progress.calls_asks (hstream stream first last) _
  | after position limit =>
    simp only [next]
    split
    · exact Progress.calls_finished _
    · exact Progress.calls_asks (hafter position limit) _
  | locating search limit =>
    simp only [next]
    refine (search.next_calls hposition).within fun result _ => ?_
    cases result with
    | error e => exact Progress.calls_finished _
    | ok position => exact Progress.calls_moves _
  | done result => exact Progress.calls_finished _

end Reads

/-! ### Interleavings -/

/-- **Procedures that are under way on one store.** -/
structure Interleaving (σ : Type) where
  /-- The store. -/
  store : Store
  /-- How far each procedure has come. -/
  states : List σ

namespace Interleaving

variable {σ ρ : Type} (next : σ → Progress σ ρ)

/-- The procedure with a number takes a step. -/
def step (i : Nat) (x : Interleaving σ) : Interleaving σ :=
  match x.states[i]? with
  | some state =>
    let (state', store) := (next state).step none state x.store
    ⟨store, x.states.set i state'⟩
  | none => x

/-- The procedures take steps in the order of a schedule. -/
def run : (schedule : List Nat) → Interleaving σ → Interleaving σ
  | [], x => x
  | i :: rest, x => run rest (x.step next i)

variable {next}

theorem step_eq_of_getElem? {x : Interleaving σ} {i : Nat} {state state' : σ} {store : Store}
    (hi : x.states[i]? = some state)
    (hstep : (next state).step none state x.store = (state', store)) :
    x.step next i = ⟨store, x.states.set i state'⟩ := by
  rw [step]
  simp only [hi, hstep]

/-- The procedure with a number takes its step on the store as it is. -/
theorem step_of_getElem? {x : Interleaving σ} {i : Nat} {state : σ}
    (hi : x.states[i]? = some state) :
    x.step next i = ⟨((next state).step none state x.store).2,
      x.states.set i ((next state).step none state x.store).1⟩ := step_eq_of_getElem? hi rfl

theorem step_eq_self {x : Interleaving σ} {i : Nat} (hi : x.states[i]? = none) :
    x.step next i = x := by
  rw [step]
  simp only [hi]

theorem run_cons (x : Interleaving σ) (i : Nat) (schedule : List Nat) :
    x.run next (i :: schedule) = (x.step next i).run next schedule := rfl

/-- **What every step keeps, every run keeps.** -/
theorem run_induction {P : Interleaving σ → Prop} {x : Interleaving σ} (schedule : List Nat)
    (h : P x)
    (hstep : ∀ (x : Interleaving σ) (i : Nat) (state : σ), P x → x.states[i]? = some state →
      P ⟨((next state).step none state x.store).2,
        x.states.set i ((next state).step none state x.store).1⟩) :
    P (x.run next schedule) := by
  induction schedule generalizing x with
  | nil => exact h
  | cons i rest ih =>
    refine ih ?_
    cases hi : x.states[i]? with
    | none => exact (step_eq_self hi).symm ▸ h
    | some state => exact (step_eq_of_getElem? hi rfl).symm ▸ hstep x i state h hi

theorem run_append (x : Interleaving σ) (before after : List Nat) :
    x.run next (before ++ after) = (x.run next before).run next after := by
  induction before generalizing x with
  | nil => rfl
  | cons i rest ih => exact ih _

/-- A procedure whose turn never comes has not begun. -/
theorem getElem?_run_of_notMem {schedule : List Nat} {i : Nat} (h : i ∉ schedule)
    (x : Interleaving σ) : (x.run next schedule).states[i]? = x.states[i]? := by
  induction schedule generalizing x with
  | nil => rfl
  | cons j rest ih =>
    rw [List.mem_cons, not_or] at h
    rw [run_cons, ih h.2]
    cases hj : x.states[j]? with
    | none => rw [step_eq_self hj]
    | some state =>
      rw [step_of_getElem? hj]
      exact List.getElem?_set_ne (Ne.symm h.1)

/-- A procedure that has finished stays where it is. -/
theorem getElem?_run_of_result? {x : Interleaving σ} {i : Nat} {state : σ}
    (hi : x.states[i]? = some state) (hr : (next state).result?.isSome) (schedule : List Nat) :
    (x.run next schedule).states[i]? = some state := by
  refine run_induction (P := fun y => y.states[i]? = some state) schedule hi
    fun y j w hy hj => ?_
  by_cases hji : j = i
  · subst hji
    obtain rfl := Option.some.inj (hy.symm.trans hj)
    have hstay : ((next state).step none state y.store).1 = state := by
      cases hnext : next state with
      | finished result => rfl
      | _ =>
        rw [hnext] at hr
        cases hr
    rw [hstay]
    exact List.getElem?_set_self (List.getElem?_eq_some_iff.mp hy).1
  · exact (List.getElem?_set_ne hji).trans hy

/-! ### One procedure among many -/

section Set

variable {states : List σ} {i : Nat} {state state' : σ}

theorem forall_mem_set {P : σ → Prop} (h : ∀ w ∈ states, P w) (hP : P state') :
    ∀ w ∈ states.set i state', P w := fun w hw =>
  (List.mem_or_eq_of_mem_set hw).elim (h w) fun heq => heq ▸ hP

/-- What a procedure does not lose by its step, is had by one more at most. -/
theorem exists_mem_set_iff (hi : states[i]? = some state) {P : σ → Prop}
    (hP : P state → P state') :
    (∃ w ∈ states.set i state', P w) ↔ (∃ w ∈ states, P w) ∨ P state' := by
  obtain ⟨hlt, rfl⟩ := List.getElem?_eq_some_iff.mp hi
  constructor
  · rintro ⟨w, hw, hPw⟩
    rcases List.mem_or_eq_of_mem_set hw with hw | rfl
    · exact Or.inl ⟨w, hw, hPw⟩
    · exact Or.inr hPw
  · rintro (⟨w, hw, hPw⟩ | hPw)
    · obtain ⟨j, hj, rfl⟩ := List.mem_iff_getElem.mp hw
      by_cases hij : i = j
      · subst hij
        exact ⟨_, List.mem_set hlt _, hP hPw⟩
      · refine ⟨states[j], List.mem_iff_getElem.mpr ⟨j, by simpa using hj, ?_⟩, hPw⟩
        exact List.getElem_set_of_ne hij _ _
    · exact ⟨_, List.mem_set hlt _, hPw⟩

/-- A symmetric relation between any two procedures. -/
theorem pairwise_getElem? {R : σ → σ → Prop} (hsymm : ∀ {w w'}, R w w' → R w' w)
    (h : states.Pairwise R) {j : Nat} (hij : i ≠ j) (hi : states[i]? = some state)
    (hj : states[j]? = some state') : R state state' := by
  obtain ⟨hilt, rfl⟩ := List.getElem?_eq_some_iff.mp hi
  obtain ⟨hjlt, rfl⟩ := List.getElem?_eq_some_iff.mp hj
  rw [List.pairwise_iff_getElem] at h
  rcases Nat.lt_or_gt_of_ne hij with hlt | hlt
  · exact h i j hilt hjlt hlt
  · exact hsymm (h j i hjlt hilt hlt)

/-- A relation between any two procedures that the step keeps with all others. -/
theorem pairwise_set {R : σ → σ → Prop} (hsymm : ∀ {w w'}, R w w' → R w' w)
    (h : states.Pairwise R)
    (hnew : ∀ j w, i ≠ j → states[j]? = some w → R w state') :
    (states.set i state').Pairwise R := by
  rw [List.pairwise_iff_getElem] at h ⊢
  intro j k hj hk hjk
  rw [List.length_set] at hj hk
  rw [List.getElem_set, List.getElem_set]
  split
  · next hij =>
    subst hij
    rw [if_neg (by omega)]
    exact hsymm (hnew k _ (by omega) (List.getElem?_eq_getElem hk))
  · next hij =>
    split
    · exact hnew j _ hij (List.getElem?_eq_getElem hj)
    · exact h j k hj hk hjk

/-- What the step of a procedure leaves alone. -/
theorem map_set_of_eq {α : Type} (hi : states[i]? = some state) {f : σ → α}
    (hf : f state' = f state) : (states.set i state').map f = states.map f := by
  obtain ⟨hlt, rfl⟩ := List.getElem?_eq_some_iff.mp hi
  rw [List.map_set, hf, ← List.getElem_map f (h := by rwa [List.length_map])]
  exact List.set_getElem_self _

/-- What the procedures have in sum, of which only one may have got more or less. -/
theorem sum_map_set (hi : states[i]? = some state) (state' : σ) (f : σ → Nat) :
    ((states.set i state').map f).sum + f state = (states.map f).sum + f state' := by
  induction states generalizing i with
  | nil => exact nomatch hi
  | cons w rest ih =>
    cases i with
    | zero =>
      obtain rfl := Option.some.inj hi
      simp only [List.set_cons_zero, List.map_cons, List.sum_cons]
      omega
    | succ i =>
      have := ih hi
      simp only [List.set_cons_succ, List.map_cons, List.sum_cons]
      omega

/-- **What the procedures have together**: what one of them had goes, and what it has comes. -/
theorem append_flatMap_set_perm {α : Type} (hi : states[i]? = some state) (state' : σ)
    (f : σ → List α) :
    (f state ++ (states.set i state').flatMap f).Perm (f state' ++ states.flatMap f) := by
  induction states generalizing i with
  | nil => exact nomatch hi
  | cons w rest ih =>
    cases i with
    | zero =>
      obtain rfl := Option.some.inj hi
      exact List.perm_append_comm_assoc _ _ _
    | succ i =>
      rw [List.set_cons_succ, List.flatMap_cons, List.flatMap_cons]
      refine (List.perm_append_comm_assoc _ _ _).trans ?_
      exact ((ih hi).append_left _).trans (List.perm_append_comm_assoc _ _ _)

/-- What the procedures have together, to which one of them may have added. -/
theorem flatMap_set_perm {α : Type} (hi : states[i]? = some state) {f : σ → List α}
    {added : List α} (hf : f state' = f state ++ added) :
    ((states.set i state').flatMap f).Perm (states.flatMap f ++ added) := by
  have hperm := append_flatMap_set_perm hi state' f
  rw [hf, List.append_assoc] at hperm
  exact ((List.perm_append_left_iff _).mp hperm).trans List.perm_append_comm

/-- What each procedure has at most one of, to which one of them may have added its own. -/
theorem filterMap_set_perm {α : Type} (hi : states[i]? = some state) {f : σ → Option α}
    {added : List α} (hf : (f state').toList = (f state).toList ++ added) :
    ((states.set i state').filterMap f).Perm (states.filterMap f ++ added) := by
  rw [List.filterMap_eq_flatMap_toList, List.filterMap_eq_flatMap_toList]
  exact flatMap_set_perm hi hf

end Set

end Interleaving

end EventJournal
