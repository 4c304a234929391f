import EventJournal.Bench.Request
import EventJournal.Proofs.Json.RoundTrip
import EventJournal.Proofs.Store

/-!
# Which snapshot is found

Snapshots are saved behind each other, and none is taken away. Of those of a stream that are not
beyond the version asked for, the one with the greatest version is found, and of several with this
version the one that was saved last (`EventJournal.Snapshot.Found`).

A state is saved as the snapshot that holds its text, and is read back from it
(`EventJournal.State.ofPayload_payload`) if it is a JSON value whose numbers are whole and that is
not nested too deep (`EventJournal.Json.Legible`).
-/

namespace EventJournal

/-! ### Saving -/

/-- The snapshot that a request saves, if it saves one. -/
def Request.saved? : Request → Option Snapshot
  | saveSnapshot snapshot => some snapshot
  | saveState stream version state => some ⟨stream, version, state.payload⟩
  | _ => none

/-- What is replied to a request that makes at most one call, with nothing else beside it. -/
def Request.replyAlone (r : Request) (s : Store) : Option (Reply × List Warning × Store) :=
  Progress.runAlone r.next 2 r.start s

/-- Requests that save, one after another: the store after them, if each is told that it has
succeeded. -/
def Request.saveAll : List Request → Store → Option Store
  | [], s => some s
  | r :: rest, s =>
    match r.replyAlone s with
    | some (.ok .unit, _, s') => saveAll rest s'
    | _ => none

namespace Store

/-- **The snapshots that are stored** are those that were saved, stream by stream in the order of
their saving. -/
def Saved (s : Store) (saved : List Snapshot) : Prop :=
  ∀ stream, (s.snapshots.get? stream).getD [] = saved.filter fun x => x.stream == stream

theorem saved_empty : empty.Saved [] := fun _ => rfl

variable {s : Store} {saved : List Snapshot}

theorem Saved.insertSnapshot (h : s.Saved saved) (x : Snapshot) :
    (s.insertSnapshot x).Saved (saved ++ [x]) := by
  intro stream
  rw [Store.insertSnapshot, SortedMap.get?_insert, List.filter_append]
  by_cases hstream : stream = x.stream
  · subst hstream
    rw [if_pos rfl, Option.getD_some, h, List.filter_cons_of_pos (by simp), List.filter_nil]
  · have hne : ¬(x.stream == stream) = true := fun heq => hstream (beq_iff_eq.mp heq).symm
    rw [if_neg hstream, h, List.filter_cons_of_neg (by simpa using hne), List.filter_nil,
      List.append_nil]

theorem Saved.findSnapshot_eq (h : s.Saved saved) (stream : Uuid) (limit : Nat) :
    s.findSnapshot stream limit =
      lastGreatest (·.version) (saved.filter fun x => x.stream == stream && x.version ≤ limit) := by
  rw [findSnapshot, h, List.filter_filter]
  simp only [Bool.and_comm]

end Store

/-- **A request that saves a snapshot saves it**, and is told so. -/
theorem Request.replyAlone_of_saved? {r : Request} {x : Snapshot} (h : r.saved? = some x)
    (s : Store) : r.replyAlone s = some (.ok .unit, [], s.insertSnapshot x) := by
  cases r with
  | saveSnapshot snapshot =>
    obtain rfl := Option.some.inj h
    rfl
  | saveState stream version state =>
    obtain rfl := Option.some.inj h
    rfl
  | _ => cases h

/-- **Whatever is saved**, in whatever order, is kept. -/
theorem Request.saved_saveAll {saves : List Request} (hsaves : ∀ r ∈ saves, r.saved?.isSome)
    {s : Store} {saved : List Snapshot} (h : s.Saved saved) :
    ∃ s', saveAll saves s = some s' ∧ s'.Saved (saved ++ saves.filterMap saved?) := by
  induction saves generalizing s saved with
  | nil => exact ⟨s, rfl, by rwa [List.filterMap_nil, List.append_nil]⟩
  | cons r rest ih =>
    rw [List.forall_mem_cons] at hsaves
    obtain ⟨x, hx⟩ := Option.isSome_iff_exists.mp hsaves.1
    obtain ⟨s', hrest, hsaved⟩ := ih hsaves.2 (h.insertSnapshot x)
    refine ⟨s', ?_, ?_⟩
    · rw [saveAll, replyAlone_of_saved? hx]
      exact hrest
    · rw [List.filterMap_cons_some hx]
      rwa [List.append_assoc] at hsaved

/-! ### Finding -/

/-- **The snapshot that is found** among those that were saved, if one is. -/
structure Snapshot.Found (saved : List Snapshot) (stream : Uuid) (limit : Nat)
    (found : Option Snapshot) : Prop where
  /-- None is found if all of the stream are beyond the version asked for. -/
  none_iff : found = none ↔ ∀ x ∈ saved, x.stream = stream → limit < x.version
  /-- One is found if no other comes closer to the version asked for, and none as close was saved
  after it. -/
  some_iff : ∀ x, found = some x ↔ ∃ before after, saved = before ++ x :: after ∧
    (x.stream = stream ∧ x.version ≤ limit) ∧
    (∀ y ∈ before, y.stream = stream → y.version ≤ limit → y.version ≤ x.version) ∧
    ∀ y ∈ after, y.stream = stream → y.version ≤ limit → y.version < x.version

theorem Store.Saved.found {s : Store} {saved : List Snapshot} (h : s.Saved saved) (stream : Uuid)
    (limit : Nat) : Snapshot.Found saved stream limit (s.findSnapshot stream limit) where
  none_iff := by
    rw [h.findSnapshot_eq, lastGreatest_eq_none_iff, List.filter_eq_nil_iff]
    refine forall₂_congr fun x _ => ?_
    rw [Bool.and_eq_true, decide_eq_true_eq, beq_iff_eq, not_and, Nat.not_le]
  some_iff x := by
    rw [h.findSnapshot_eq, lastGreatest_filter_eq_some_iff]
    simp only [Bool.and_eq_true, decide_eq_true_eq, beq_iff_eq, and_imp]

/-! ### States -/

/-- **A JSON value comes back from its payload.** -/
theorem State.ofPayload_payload {v : Json} (h : v.Legible Json.maxDepth) :
    State.ofPayload .value (State.value v).payload = .ok (.value v) := by
  have hparse := h.parseBytes_render
  rw [Json.parseBytes] at hparse
  simp only [State.ofPayload, State.payload, State.render, hparse]
  rfl

/-! ### What is told of what was saved -/

namespace Request

theorem replyAlone_findSnapshot (stream : Uuid) (limit : Nat) (s : Store) :
    (findSnapshot stream limit).replyAlone s =
      some (.ok (.snapshot (s.findSnapshot stream limit)), [], s) := rfl

theorem replyAlone_loadState {stream : Uuid} {limit version : Nat} {v : Json} {s : Store}
    (hv : v.Legible Json.maxDepth)
    (h : s.findSnapshot stream limit = some ⟨stream, version, (State.value v).payload⟩) :
    (loadState stream limit .value).replyAlone s =
      some (.ok (.state (some (version, .value v))), [], s) := by
  have hreply : (loadState stream limit .value).replyAlone s =
      some (Reply.ofLog .state (Snapshot.toState .value (s.findSnapshot stream limit)), [], s) :=
    rfl
  rw [hreply, h, Snapshot.toState, State.ofPayload_payload hv]
  rfl

/-- **Who asks for the latest snapshot of a stream up to a version** is told which it is of all that
were saved, and would be told the same whatever else had been saved for other streams. Who asks for
a state is told the version of this snapshot and the JSON value that was saved as it. -/
theorem finds_saved {saves : List Request} (hsaves : ∀ r ∈ saves, r.saved?.isSome) :
    ∃ s, saveAll saves .empty = some s ∧ ∀ stream limit, ∃ found,
      (findSnapshot stream limit).replyAlone s = some (.ok (.snapshot found), [], s) ∧
      Snapshot.Found (saves.filterMap saved?) stream limit found ∧
      (∀ saves' s', (∀ r ∈ saves', r.saved?.isSome) →
        (saves'.filterMap saved?).filter (·.stream == stream) =
          (saves.filterMap saved?).filter (·.stream == stream) →
        saveAll saves' .empty = some s' →
        (findSnapshot stream limit).replyAlone s' = some (.ok (.snapshot found), [], s')) ∧
      ∀ version v, v.Legible Json.maxDepth →
        found = (saveState stream version (.value v)).saved? →
        (loadState stream limit .value).replyAlone s =
          some (.ok (.state (some (version, .value v))), [], s) := by
  obtain ⟨s, hs, hsaved⟩ := saved_saveAll hsaves Store.saved_empty
  refine ⟨s, hs, fun stream limit => ⟨s.findSnapshot stream limit,
    replyAlone_findSnapshot stream limit s, hsaved.found stream limit, ?_,
    fun version v hv hfound => replyAlone_loadState hv hfound⟩⟩
  intro saves' s' hsaves' hsame hs'
  obtain ⟨s₁, hs₁, hsaved'⟩ := saved_saveAll hsaves' Store.saved_empty
  obtain rfl := Option.some.inj (hs₁.symm.trans hs')
  have hfind : s₁.findSnapshot stream limit = s.findSnapshot stream limit := by
    rw [Store.findSnapshot, Store.findSnapshot, hsaved', hsaved]
    exact congrArg (fun xs => lastGreatest (·.version) (xs.filter (·.version ≤ limit))) hsame
  rw [replyAlone_findSnapshot, hfind]

/-- Two streams are saved in turn, and the newer of two snapshots of one version is found behind
one that is beyond. It holds a nested value, with both ends of the numbers and a text that has to be
escaped. -/
theorem finds_saved_newest :
    let v : Json := .object [("a", .array [.integer (-0x8000000000000000), .null]),
      ("b", .object [("c", .integer 0xFFFFFFFFFFFFFFFF)]), ("d", .string "\"\\\n\u0001é")]
    let saves : List Request := [saveSnapshot ⟨.ofNat 1, 3, []⟩, saveState (.ofNat 2) 4 (.word 7),
      saveState (.ofNat 1) 3 (.value v), saveSnapshot ⟨.ofNat 1, 2, [0]⟩,
      saveSnapshot ⟨.ofNat 1, 9, [1]⟩]
    (∀ r ∈ saves, r.saved?.isSome) ∧ ∃ s, saveAll saves .empty = some s ∧
      (findSnapshot (.ofNat 1) 8).replyAlone s =
        some (.ok (.snapshot (some ⟨.ofNat 1, 3, (State.value v).payload⟩)), [], s) ∧
      (loadState (.ofNat 1) 8 .value).replyAlone s =
        some (.ok (.state (some (3, .value v))), [], s) ∧
      (findSnapshot (.ofNat 2) 3).replyAlone s = some (.ok (.snapshot none), [], s) := by
  intro v saves
  have hsaves : ∀ r ∈ saves, r.saved?.isSome := by simp [saves, saved?]
  have hv : v.Legible Json.maxDepth := by
    refine .object (by decide) ?_
    rintro m (_ | ⟨_, _ | ⟨_, _ | ⟨_, ⟨⟩⟩⟩⟩)
    · refine .array ?_
      rintro w (_ | ⟨_, _ | ⟨_, ⟨⟩⟩⟩)
      · exact .integer (by decide) (by decide)
      · exact .null
    · refine .object (by decide) ?_
      rintro m (_ | ⟨_, ⟨⟩⟩)
      exact .integer (by decide) (by decide)
    · exact .string _
  have hne : Uuid.ofNat 2 ≠ Uuid.ofNat 1 := by decide
  obtain ⟨s, hs, hfinds⟩ := finds_saved hsaves
  obtain ⟨found, hreply, hfound, -, hstate⟩ := hfinds (.ofNat 1) 8
  obtain ⟨found', hreply', hfound', -⟩ := hfinds (.ofNat 2) 3
  have hnewest : found = some ⟨.ofNat 1, 3, (State.value v).payload⟩ :=
    (hfound.some_iff _).mpr ⟨[⟨.ofNat 1, 3, []⟩, ⟨.ofNat 2, 4, (State.word 7).payload⟩],
      [⟨.ofNat 1, 2, [0]⟩, ⟨.ofNat 1, 9, [1]⟩], rfl, ⟨rfl, by decide⟩, by simp [hne], by simp⟩
  have hnone : found' = none := hfound'.none_iff.mpr (by simp [saves, saved?, hne.symm])
  exact ⟨hsaves, s, hs, hnewest ▸ hreply, hstate 3 v hv hnewest, hnone ▸ hreply'⟩

end Request

end EventJournal
