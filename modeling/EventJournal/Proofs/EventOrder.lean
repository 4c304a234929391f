import EventJournal.Proofs.EventTable

/-!
# Events in the order of their positions

What the log holds is a list of events in the order of their positions
(`EventJournal.EventTable.Coherent.pairwise_toList`), and all that a reader is ever given is a
stretch of it (`EventJournal.EventTable.Coherent.after_eq`). A batch at positions beyond all that
are taken comes to the end of the list (`EventJournal.EventTable.Coherent.toList_insertAll`).

A reader that goes by positions sees nothing of the list but what comes after the last position
that it has. Of a list in order that is enough: the events up to the last position of an initial
segment are the segment (`EventJournal.filter_le_of_prefix`), and those after it are the rest
(`EventJournal.filter_lastPosition_lt`).
-/

namespace EventJournal

/-! ### Events in a row -/

/-- **Events at consecutive positions**, the first of which comes right after `p`. -/
def Follow : (p : Nat) → List Event → Prop
  | _, [] => True
  | p, e :: rest => e.position = p + 1 ∧ Follow (p + 1) rest

theorem Follow.take {p : Nat} {events : List Event} (h : Follow p events) (limit : Nat) :
    Follow p (events.take limit) := by
  induction events generalizing p limit with
  | nil => rwa [List.take_nil]
  | cons e rest ih =>
    cases limit with
    | zero => trivial
    | succ limit => exact ⟨h.1, ih h.2 limit⟩

/-- The positions of events in a row. -/
theorem Follow.position_iff {p : Nat} {events : List Event} (h : Follow p events) (q : Nat) :
    (∃ e ∈ events, e.position = q) ↔ p < q ∧ q ≤ p + events.length := by
  induction events generalizing p with
  | nil =>
    simp only [List.not_mem_nil, false_and, exists_false, List.length_nil, false_iff]
    omega
  | cons e rest ih =>
    rw [List.exists_mem_cons_iff, ih h.2, h.1, List.length_cons]
    omega

theorem Follow.lt_position {p : Nat} {events : List Event} (h : Follow p events) {e : Event}
    (he : e ∈ events) : p < e.position := ((h.position_iff _).mp ⟨e, he, rfl⟩).1

theorem Follow.pairwise {p : Nat} {events : List Event} (h : Follow p events) :
    events.Pairwise fun a b => a.position < b.position := by
  induction events generalizing p with
  | nil => exact List.Pairwise.nil
  | cons e rest ih =>
    refine List.pairwise_cons.mpr ⟨fun x hx => ?_, ih h.2⟩
    rw [h.1]
    exact h.2.lt_position hx

theorem Follow.position_getLast? {p : Nat} {events : List Event} (h : Follow p events) {e : Event}
    (he : events.getLast? = some e) : e.position = p + events.length := by
  induction events generalizing p with
  | nil => exact nomatch he
  | cons x rest ih =>
    cases rest with
    | nil =>
      obtain rfl : x = e := Option.some.inj he
      exact h.1
    | cons y rest =>
      have hlast := ih h.2 (by rwa [List.getLast?_cons_cons] at he)
      rw [List.length_cons]
      omega

/-- **Events in a row have no gap to fall into**: what comes after a position is the list without
as many events as come up to it. -/
theorem Follow.filter_lt {p : Nat} {events : List Event} (h : Follow p events) (n : Nat) :
    events.filter (fun e => p + n < e.position) = events.drop n := by
  induction events generalizing p n with
  | nil => rw [List.filter_nil, List.drop_nil]
  | cons e rest ih =>
    cases n with
    | zero =>
      rw [List.drop_zero, List.filter_eq_self]
      intro x hx
      simpa using h.lt_position hx
    | succ n =>
      have hrest := ih h.2 n
      rw [List.filter_cons_of_neg (by have := h.1; simp only [decide_eq_true_eq]; omega),
        List.drop_succ_cons, ← hrest]
      simp only [Nat.add_assoc, Nat.add_comm 1]

/-- A batch is placed in a row. -/
theorem Draft.follow_placeAll (stream : Uuid) (index position : Nat) (ds : List Draft) :
    Follow position (placeAll stream index (position + 1) ds) := by
  induction ds generalizing index position with
  | nil => trivial
  | cons d rest ih => exact ⟨rfl, ih (index + 1) (position + 1)⟩

/-- Events in order follow if no position is left out. -/
theorem follow_of_forall_position {p last : Nat} {events : List Event}
    (hlt : events.Pairwise fun a b => a.position < b.position)
    (hp : ∀ q, (∃ e ∈ events, e.position = q) ↔ p < q ∧ q ≤ last) : Follow p events := by
  induction events generalizing p with
  | nil => trivial
  | cons e rest ih =>
    obtain ⟨he, hrest⟩ := List.pairwise_cons.mp hlt
    have hpos := (hp e.position).mp ⟨e, List.mem_cons_self, rfl⟩
    have hnext : e.position = p + 1 := by
      obtain ⟨x, hx, hxp⟩ := (hp (p + 1)).mpr (by omega)
      rcases List.mem_cons.mp hx with rfl | hx
      · exact hxp
      · have := he x hx
        omega
    refine ⟨hnext, ih hrest fun q => ?_⟩
    constructor
    · rintro ⟨x, hx, rfl⟩
      have := he x hx
      have := (hp x.position).mp ⟨x, List.mem_cons_of_mem _ hx, rfl⟩
      omega
    · intro hq
      obtain ⟨x, hx, rfl⟩ := (hp q).mpr (by omega)
      rcases List.mem_cons.mp hx with rfl | hx
      · omega
      · exact ⟨x, hx, rfl⟩

/-! ### Initial segments -/

/-- The position of the last event of a list. -/
def lastPosition (events : List Event) : Option Nat := events.getLast?.map (·.position)

theorem lastPosition_append (l l' : List Event) :
    lastPosition (l ++ l') = (lastPosition l').or (lastPosition l) := by
  rw [lastPosition, List.getLast?_append, Option.map_or]
  rfl

/-- Events in a strict order, by whatever number, are known by which they are. -/
theorem eq_of_pairwise_lt {key : Event → Nat} {l l' : List Event}
    (h : l.Pairwise fun a b => key a < key b) (h' : l'.Pairwise fun a b => key a < key b)
    (hmem : ∀ e, e ∈ l ↔ e ∈ l') : l = l' := by
  have hnodup : ∀ {m : List Event}, m.Pairwise (fun a b => key a < key b) → m.Nodup :=
    fun hm => hm.imp fun hlt heq => absurd (heq ▸ hlt) (Nat.lt_irrefl _)
  have hperm : l.Perm l' :=
    (List.perm_ext_iff_of_nodup (hnodup h) (hnodup h')).mpr hmem
  exact hperm.eq_of_pairwise (fun a b _ _ hab hba => absurd hba hab.asymm) h h'

theorem eq_of_pairwise_position {l l' : List Event}
    (h : l.Pairwise fun a b => a.position < b.position)
    (h' : l'.Pairwise fun a b => a.position < b.position) (hmem : ∀ e, e ∈ l ↔ e ∈ l') :
    l = l' :=
  eq_of_pairwise_lt h h' hmem

section Prefix

variable {l rest : List Event}
  (h : (l ++ rest).Pairwise fun a b => a.position < b.position)

include h

/-- The last position of an initial segment parts it from the rest. -/
theorem lastPosition_parts {p : Nat} (hp : lastPosition l = some p) :
    (∀ e ∈ l, e.position ≤ p) ∧ ∀ e ∈ rest, p < e.position := by
  obtain ⟨x, hx, rfl⟩ := Option.map_eq_some_iff.mp hp
  obtain ⟨hl, -, hlt⟩ := List.pairwise_append.mp h
  refine ⟨fun e he => ?_, hlt x (List.mem_of_getLast? hx)⟩
  obtain ⟨init, rfl⟩ := List.getLast?_eq_some_iff.mp hx
  rcases List.mem_append.mp he with he | he
  · exact ((List.pairwise_append.mp hl).2.2 e he x (List.mem_singleton.mpr rfl)).le
  · rw [List.mem_singleton.mp he]

/-- **After the last position of an initial segment comes the rest.** -/
theorem filter_lastPosition_lt :
    (l ++ rest).filter (fun e => (lastPosition l).all (· < e.position)) = rest := by
  cases hp : lastPosition l with
  | none =>
    obtain rfl : l = [] := by simpa [lastPosition] using hp
    simp
  | some p =>
    obtain ⟨hle, hlt⟩ := lastPosition_parts h hp
    have hnone : l.filter (fun e => (some p).all (· < e.position)) = [] := by
      refine List.filter_eq_nil_iff.mpr fun e he => ?_
      simpa using hle e he
    have hall : rest.filter (fun e => (some p).all (· < e.position)) = rest := by
      refine List.filter_eq_self.mpr fun e he => ?_
      simpa using hlt e he
    rw [List.filter_append, hnone, hall, List.nil_append]

/-- **Up to the last position of an initial segment comes the segment.** Before the first event
there is none. -/
theorem filter_le_of_append (hpos : ∀ e ∈ l ++ rest, 0 < e.position) :
    (l ++ rest).filter (fun e => e.position ≤ (lastPosition l).getD 0) = l := by
  have hparts : (∀ e ∈ l, e.position ≤ (lastPosition l).getD 0) ∧
      ∀ e ∈ rest, (lastPosition l).getD 0 < e.position := by
    cases hp : lastPosition l with
    | none =>
      obtain rfl : l = [] := by simpa [lastPosition] using hp
      exact ⟨nofun, hpos⟩
    | some p => exact lastPosition_parts h hp
  have hall : l.filter (fun e => e.position ≤ (lastPosition l).getD 0) = l := by
    refine List.filter_eq_self.mpr fun e he => ?_
    simpa using hparts.1 e he
  have hnone : rest.filter (fun e => e.position ≤ (lastPosition l).getD 0) = [] := by
    refine List.filter_eq_nil_iff.mpr fun e he => ?_
    simpa using hparts.2 e he
  rw [List.filter_append, hall, hnone, List.append_nil]

end Prefix

theorem filter_le_of_prefix {l log : List Event}
    (h : log.Pairwise fun a b => a.position < b.position) (hpos : ∀ e ∈ log, 0 < e.position)
    (hl : l <+: log) : log.filter (fun e => e.position ≤ (lastPosition l).getD 0) = l := by
  obtain ⟨rest, rfl⟩ := hl
  exact filter_le_of_append h hpos

/-! ### The table as a list -/

namespace EventTable

variable {t : EventTable}

/-- The events of a map of positions are in the order of their positions. -/
theorem pairwise_values {m : SortedMap Nat Event}
    (h : ∀ p e, m.get? p = some e → e.position = p) :
    m.values.Pairwise fun a b => a.position < b.position := by
  refine List.pairwise_map.mpr (m.ascending.imp_of_mem fun {a b} ha hb hlt => ?_)
  rw [h _ _ (SortedMap.get?_eq_some_iff.mpr ha), h _ _ (SortedMap.get?_eq_some_iff.mpr hb)]
  exact hlt

theorem Coherent.pairwise_toList (h : t.Coherent) :
    t.toList.Pairwise fun a b => a.position < b.position :=
  pairwise_values fun _ _ => h.position_eq

/-- **What comes after a position** is what it says, in order. -/
theorem Coherent.after_eq (h : t.Coherent) (position : Option Nat) (limit : Nat) :
    t.after position limit =
      (t.toList.filter fun e => position.all (· < e.position)).take limit := by
  cases position with
  | none => simp [EventTable.after]
  | some p =>
    have hkey : ∀ x ∈ t.byPosition.entries, decide (p < x.1) = decide (p < x.2.position) := by
      intro x hx
      rw [h.position_eq (SortedMap.get?_eq_some_iff.mpr hx)]
    simp only [EventTable.after, SortedMap.above, SortedMap.filter, SortedMap.values, toList,
      List.filter_map, Option.all_some]
    rw [List.filter_congr hkey]
    rfl

/-- **A batch beyond all events comes to their end.** -/
theorem Coherent.toList_insertAll (h : t.Coherent) {p : Nat} {events : List Event}
    (hle : ∀ e ∈ t.toList, e.position ≤ p) (hfollow : Follow p events)
    (hnone : (t.insertAll events).1 = none) :
    (t.insertAll events).2.toList = t.toList ++ events := by
  obtain ⟨hcoh, hmem⟩ := insertAll_of_none h hnone
  refine eq_of_pairwise_position hcoh.pairwise_toList ?_ fun e => ?_
  · refine List.pairwise_append.mpr ⟨h.pairwise_toList, hfollow.pairwise, ?_⟩
    intro a ha b hb
    exact (hle a ha).trans_lt (hfollow.lt_position hb)
  · rw [hmem, List.mem_append]

/-! ### A stream of the table -/

/-- **The events of a stream between two indexes**, both included. -/
theorem Coherent.mem_ofStream_iff (h : t.Coherent) {stream : Uuid} {first last : Nat} {e : Event} :
    e ∈ t.ofStream stream first last ↔
      e ∈ t.toList ∧ e.stream = stream ∧ first ≤ e.index ∧ e.index ≤ last := by
  rw [ofStream, List.mem_filterMap, h.mem_toList_iff]
  simp only [SortedMap.range, SortedMap.mem_values_iff, SortedMap.get?_filter_eq_some_iff,
    Bool.and_eq_true, Bool.not_eq_true', decide_eq_false_iff_not, Nat.not_lt]
  constructor
  · rintro ⟨p, ⟨i, hi, hfirst, hlast⟩, he⟩
    obtain ⟨x, hx, hst, rfl⟩ := h.indexOf_iff.mp hi
    obtain rfl : x = e := Option.some.inj (hx.symm.trans he)
    rw [h.position_eq he]
    exact ⟨he, hst, hfirst, hlast⟩
  · rintro ⟨he, hst, hbounds⟩
    exact ⟨e.position, ⟨e.index, h.indexOf_iff.mpr ⟨e, he, hst, rfl⟩, hbounds⟩, he⟩

/-- They are read in the order of their indexes. -/
theorem Coherent.pairwise_ofStream (h : t.Coherent) (stream : Uuid) (first last : Nat) :
    (t.ofStream stream first last).Pairwise fun a b => a.index < b.index := by
  -- the entry of an index stands for the event that has it
  have hindex : ∀ x ∈ (t.indexOf stream).entries, ∀ e, t.byPosition.get? x.2 = some e →
      e.index = x.1 := by
    intro x hx e he
    obtain ⟨y, hy, -, hi⟩ := h.indexOf_iff.mp (SortedMap.get?_eq_some_iff.mpr hx)
    rw [← hi, Option.some.inj (hy.symm.trans he)]
  refine List.pairwise_filterMap.mpr (List.pairwise_map.mpr ?_)
  refine ((t.indexOf stream).ascending.filter _).imp_of_mem fun {x y} hx hy hlt a ha b hb => ?_
  rw [hindex x (List.mem_of_mem_filter hx) a ha, hindex y (List.mem_of_mem_filter hy) b hb]
  exact hlt

end EventTable

end EventJournal
