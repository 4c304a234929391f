import EventJournal.Proofs.Appending.PlainLog
import Mathlib.Data.List.Induction

/-!
# Appends to several streams

Proposals for several streams are put to them one stream after another, in the order in which the
streams first occur; each stream gets one batch, with the version that its first proposal names
(`EventJournal.batchesOf_eq`). If the proposals bring identifiers that are new, no batch is lost,
and what becomes of a batch depends on nothing but the head of its own stream
(`EventJournal.Append.Alone.of_storable`). So it does not matter to a batch what has become of those
before it, except for its place in the log:

| of a stream | after all batches | after its batch alone |
|---|---|---|
| the head | the same | the same |
| the result | the same events, or the same failure | at other positions |
| its events | the same | at other positions |

`EventJournal.Store.SameStream` is what two stores have in common that agree on a stream in this
way, and `EventJournal.Append.Alone.alike` what two appends of one batch to such stores have.
-/

namespace EventJournal

/-! ### Lists by a key -/

section Keys

variable {α κ : Type} [DecidableEq κ]

/-- A key that comes last is new, or repeats one. -/
theorem eraseDups_concat (l : List κ) (k : κ) :
    (l ++ [k]).eraseDups = if k ∈ l then l.eraseDups else l.eraseDups ++ [k] := by
  rw [List.eraseDups_append]
  by_cases hk : k ∈ l <;> simp [List.removeAll, List.eraseDups_cons, hk]

theorem nodup_eraseDups (l : List κ) : l.eraseDups.Nodup := by
  induction l using List.reverseRecOn with
  | nil => exact List.nodup_nil
  | append_singleton l k ih =>
    rw [eraseDups_concat]
    split
    · exact ih
    · next hk =>
      rw [← List.concat_eq_append, List.nodup_concat]
      exact ⟨fun hmem => hk (List.mem_eraseDups.mp hmem), ih⟩

/-- **A list in groups**, one for each key, has the same members. -/
theorem flatMap_filter_perm {f : α → κ} {keys : List κ} (hkeys : keys.Nodup) {l : List α}
    (h : ∀ a ∈ l, f a ∈ keys) : (keys.flatMap fun k => l.filter (f · = k)).Perm l := by
  induction keys generalizing l with
  | nil =>
    obtain rfl : l = [] := List.eq_nil_iff_forall_not_mem.mpr fun a ha => nomatch h a ha
    exact List.Perm.nil
  | cons k rest ih =>
    obtain ⟨hk, hrest⟩ := List.nodup_cons.mp hkeys
    -- the groups of the other keys are those of what is left
    have hothers : (rest.flatMap fun k' => l.filter (f · = k')) =
        rest.flatMap fun k' => (l.filter fun a => !decide (f a = k)).filter (f · = k') := by
      refine List.flatMap_congr fun k' hk' => ?_
      rw [List.filter_filter]
      refine List.filter_congr fun a _ => ?_
      by_cases ha : f a = k'
      · have hne : f a ≠ k := fun heq => hk (heq ▸ ha ▸ hk')
        simp [ha, ha ▸ hne]
      · simp [ha]
    rw [List.flatMap_cons, hothers]
    refine ((ih hrest fun a ha => ?_).append_left _).trans (List.filter_append_perm _ l)
    obtain ⟨ha, hne⟩ := List.mem_filter.mp ha
    exact (List.mem_cons.mp (h a ha)).resolve_left (by simpa using hne)

end Keys

/-! ### The batches of proposals -/

/-- The streams of proposals, in the order in which they first occur. -/
def streamsOf (ps : List Proposal) : List Uuid := (ps.map (·.stream)).eraseDups

/-- **The batch for a stream**: what is proposed for it, in the order of the proposals, and the
version that the first of them names. -/
def batchFor (ps : List Proposal) (stream : Uuid) : Batch where
  stream := stream
  expected := ((ps.filter (·.stream = stream)).head?.map (·.expected)).getD 0
  drafts := (ps.filter (·.stream = stream)).map (·.draft)
  kind := Batch.defaultKind

section Proposals

variable {ps : List Proposal} {p : Proposal} {stream : Uuid}

theorem mem_streamsOf_iff : stream ∈ streamsOf ps ↔ ∃ p ∈ ps, p.stream = stream := by
  rw [streamsOf, List.mem_eraseDups, List.mem_map]

theorem nodup_streamsOf (ps : List Proposal) : (streamsOf ps).Nodup := nodup_eraseDups _

theorem batchFor_drafts_ne_nil (h : stream ∈ streamsOf ps) : (batchFor ps stream).drafts ≠ [] := by
  obtain ⟨p, hp, hstream⟩ := mem_streamsOf_iff.mp h
  have hown : p ∈ ps.filter (·.stream = stream) := List.mem_filter.mpr ⟨hp, by simpa using hstream⟩
  exact fun hnil => List.ne_nil_of_mem hown (List.map_eq_nil_iff.mp hnil)

/-- A proposal for another stream is nothing to a batch. -/
theorem batchFor_concat_of_ne (h : p.stream ≠ stream) :
    batchFor (ps ++ [p]) stream = batchFor ps stream := by
  rw [batchFor, batchFor, List.filter_append, List.filter_singleton, decide_eq_false h]
  simp

/-- A proposal for a stream that has a batch goes to its end. -/
theorem batchFor_concat_self (h : p.stream ∈ streamsOf ps) :
    batchFor (ps ++ [p]) p.stream =
      { batchFor ps p.stream with drafts := (batchFor ps p.stream).drafts ++ [p.draft] } := by
  have hne : ps.filter (·.stream = p.stream) ≠ [] := fun hnil =>
    batchFor_drafts_ne_nil h (by rw [batchFor, hnil]; rfl)
  obtain ⟨first, rest, hown⟩ := List.exists_cons_of_ne_nil hne
  rw [batchFor, batchFor, List.filter_append, hown]
  simp

/-- A proposal for any other stream begins a batch. -/
theorem batchFor_concat_new (h : p.stream ∉ streamsOf ps) :
    batchFor (ps ++ [p]) p.stream = ⟨p.stream, p.expected, [p.draft], Batch.defaultKind⟩ := by
  have hnil : ps.filter (·.stream = p.stream) = [] := by
    rw [List.filter_eq_nil_iff]
    intro q hq hstream
    exact h (mem_streamsOf_iff.mpr ⟨q, hq, by simpa using hstream⟩)
  rw [batchFor, List.filter_append, hnil]
  simp

/-- **One batch a stream**, in the order in which the streams first occur. -/
theorem batchesOf_eq (ps : List Proposal) :
    batchesOf ps = (streamsOf ps).map (batchFor ps) := by
  induction ps using List.reverseRecOn with
  | nil => rfl
  | append_singleton ps p ih =>
    have hany : ((streamsOf ps).map (batchFor ps)).any (fun b => b.stream = p.stream) = true ↔
        p.stream ∈ streamsOf ps := by
      simp only [List.any_map, List.any_eq_true, Function.comp, decide_eq_true_eq]
      exact ⟨fun ⟨stream, hmem, heq⟩ => heq ▸ hmem, fun hmem => ⟨_, hmem, rfl⟩⟩
    have hstreams : streamsOf (ps ++ [p]) =
        if p.stream ∈ streamsOf ps then streamsOf ps else streamsOf ps ++ [p.stream] := by
      rw [streamsOf, List.map_append, List.map_singleton, eraseDups_concat]
      simp only [← List.mem_eraseDups (l := ps.map _)]
      rfl
    rw [batchesOf, List.foldl_append, ← batchesOf, ih, List.foldl_cons, List.foldl_nil, addProposal,
      hstreams]
    by_cases hmem : p.stream ∈ streamsOf ps
    · rw [if_pos (hany.mpr hmem), if_pos hmem, List.map_map]
      refine List.map_congr_left fun stream _ => ?_
      simp only [Function.comp]
      by_cases heq : stream = p.stream
      · subst heq
        exact (if_pos rfl).trans (batchFor_concat_self hmem).symm
      · exact (if_neg heq).trans (batchFor_concat_of_ne (Ne.symm heq)).symm
    · rw [if_neg (fun h => hmem (hany.mp h)), if_neg hmem, List.map_append, List.map_singleton,
        batchFor_concat_new hmem]
      refine congrArg (· ++ _) (List.map_congr_left fun stream hstream => ?_)
      exact (batchFor_concat_of_ne fun heq => hmem (heq ▸ hstream)).symm

/-- The batches have all the proposals. -/
theorem flatMap_drafts_perm (ps : List Proposal) :
    ((batchesOf ps).flatMap (·.drafts)).Perm (ps.map (·.draft)) := by
  rw [batchesOf_eq, List.flatMap_map]
  have hperm := flatMap_filter_perm (nodup_streamsOf ps)
    fun p hp => mem_streamsOf_iff.mpr ⟨p, hp, rfl⟩
  have hdrafts := hperm.map (·.draft)
  rwa [List.map_flatMap] at hdrafts

end Proposals

/-! ### Up to positions -/

/-- An event without its position. -/
def Event.unplaced (e : Event) : Event := { e with position := 0 }

/-- The events of a result, if there are any. -/
def eventsIn (result : Except LogError (List Event)) : List Event := result.toOption.getD []

/-- **Where a batch comes to stand** makes no other difference to its events. -/
theorem Batch.map_unplaced_placed (b : Batch) (first first' : Nat) :
    (b.placed first).map Event.unplaced = (b.placed first').map Event.unplaced := by
  have hdrafts : ∀ (ds : List Draft) (index first first' : Nat),
      (Draft.placeAll b.stream index first ds).map Event.unplaced =
        (Draft.placeAll b.stream index first' ds).map Event.unplaced := by
    intro ds
    induction ds with
    | nil => exact fun _ _ _ => rfl
    | cons d rest ih =>
      intro index first first'
      rw [Draft.placeAll, Draft.placeAll, List.map_cons, List.map_cons, ih]
      rfl
  exact hdrafts b.drafts b.expected first first'

/-- Events in a row, followed by others in a row. -/
theorem Follow.append {p : Nat} {events more : List Event} (h : Follow p events)
    (hmore : Follow (p + events.length) more) : Follow p (events ++ more) := by
  induction events generalizing p with
  | nil => exact hmore
  | cons e rest ih =>
    refine ⟨h.1, ih h.2 ?_⟩
    rwa [List.length_cons, Nat.add_comm rest.length, ← Nat.add_assoc] at hmore

namespace Store

/-- **Two stores that agree on a stream**, except for the positions of its events. -/
structure SameStream (stream : Uuid) (s s' : Store) : Prop where
  /-- The head. -/
  head : s'.heads.get? stream = s.heads.get? stream
  /-- The events, in their order. -/
  events : (eventsOf stream s'.events.toList).map Event.unplaced =
    (eventsOf stream s.events.toList).map Event.unplaced

variable {stream : Uuid} {s s' s'' : Store}

theorem SameStream.refl (stream : Uuid) (s : Store) : s.SameStream stream s := ⟨rfl, rfl⟩

theorem SameStream.trans (h : s.SameStream stream s') (h' : s'.SameStream stream s'') :
    s.SameStream stream s'' := ⟨h'.head.trans h.head, h'.events.trans h.events⟩

theorem SameStream.version_eq (h : s.SameStream stream s') :
    s'.version stream = s.version stream := by
  rw [version, version, h.head]

end Store

/-! ### What becomes of a batch that fits in -/

/-- Why a batch with events fails at a version of its stream, if its events fit in. -/
def Batch.failure? (b : Batch) (version : Nat) : Option LogError :=
  match b.refusal? with
  | some refusal => some (.invalid refusal)
  | none => if version = b.expected then none else some (.concurrency b.stream b.version)

namespace Append

variable {b : Batch} {s s' x x' : Store} {r r' : Except LogError (List Event)}

/-- **What becomes of a batch that fits in** is a matter of the head of its stream. -/
theorem Alone.of_storable (h : Alone b s r s') (hs : s.Ordered) (hds : b.drafts ≠ [])
    (hstorable : b.Storable s) :
    (∃ e, b.failure? (s.version b.stream) = some e ∧ r = .error e ∧ s' = s) ∨
      b.failure? (s.version b.stream) = none ∧
        r = .ok (b.placed (s.counter Sequence.events + 1)) ∧
        s'.events.toList = s.events.toList ++ b.placed (s.counter Sequence.events + 1) ∧
        s'.heads = s.heads.insert b.stream ⟨b.stream, b.version, b.kindIn s⟩ := by
  rw [Batch.failure?]
  have hlog := h.toList_eq hs
  cases h with
  | refused hrefusal =>
    rw [hrefusal]
    exact Or.inl ⟨_, rfl, rfl, rfl⟩
  | empty _ hnil => exact absurd hnil hds
  | late haccepted _ hne =>
    rw [haccepted]
    exact Or.inl ⟨_, if_neg hne, rfl, rfl⟩
  | lost hlost => exact absurd hstorable hlost.2
  | @stored head _ hclaimable _ hstream hversion hgains hkind =>
    rw [hclaimable.accepted]
    refine Or.inr ⟨if_pos hclaimable.version_eq, rfl, (hlog.1 _ rfl).2, ?_⟩
    obtain ⟨stream, version, kind⟩ := head
    simp only at hstream hversion hkind
    rw [hgains.heads, Store.withHead, hstream, hversion, hkind]

/-- **A batch is nothing to other streams.** -/
theorem Alone.sameStream_of_ne (h : Alone b s r s') (hs : s.Ordered) {stream : Uuid}
    (hne : stream ≠ b.stream) : s.SameStream stream s' := by
  have hlog := h.toList_eq hs
  cases h with
  | refused | empty | late => exact .refl stream s
  | @lost head _ _ _ hstream hversion hagrees =>
    refine ⟨?_, ?_⟩
    · rw [hagrees.heads, Store.withHead]
      exact SortedMap.get?_insert_of_ne _ (hstream ▸ hne) _
    · rw [hlog.2 _ rfl]
  | @stored head _ _ _ hstream hversion hgains =>
    refine ⟨?_, ?_⟩
    · rw [hgains.heads, Store.withHead]
      exact SortedMap.get?_insert_of_ne _ (hstream ▸ hne) _
    · rw [(hlog.1 _ rfl).2, eventsOf_append, eventsOf_placed, if_neg hne, List.append_nil]

/-- What a batch answers comes to the end of the log, at the positions that follow. -/
theorem Alone.toList_eventsIn (h : Alone b s r s') (hs : s.Ordered) :
    s'.events.toList = s.events.toList ++ eventsIn r ∧
      Follow s.events.toList.length (eventsIn r) := by
  obtain ⟨hok, herror⟩ := h.toList_eq hs
  cases r with
  | error e =>
    refine ⟨?_, trivial⟩
    rw [herror e rfl]
    exact (List.append_nil _).symm
  | ok events =>
    obtain ⟨heq, hlist⟩ := hok events rfl
    refine ⟨hlist, ?_⟩
    rw [heq]
    exact Draft.follow_placeAll _ _ _ _

/-- **Two stores that agree on a stream** still do after a batch for it, and the batch has the same
result, up to positions. -/
theorem Alone.alike (h : Alone b s r s') (h' : Alone b x r' x') (hs : s.Ordered) (hx : x.Ordered)
    (hds : b.drafts ≠ []) (hstorable : b.Storable s) (hstorable' : b.Storable x)
    (hsame : s.SameStream b.stream x) :
    r'.map (List.map Event.unplaced) = r.map (List.map Event.unplaced) ∧
      s'.SameStream b.stream x' := by
  have hsettled := h.of_storable hs hds hstorable
  have hsettled' := h'.of_storable hx hds hstorable'
  rw [hsame.version_eq] at hsettled'
  rcases hsettled with ⟨e, hfails, rfl, rfl⟩ | ⟨hsucceeds, rfl, hlist, hheads⟩
  · rcases hsettled' with ⟨e', hfails', rfl, rfl⟩ | ⟨hsucceeds', -, -, -⟩
    · obtain rfl := Option.some.inj (hfails.symm.trans hfails')
      exact ⟨rfl, hsame⟩
    · cases hfails.symm.trans hsucceeds'
  · rcases hsettled' with ⟨e', hfails', -, -⟩ | ⟨-, rfl, hlist', hheads'⟩
    · cases hsucceeds.symm.trans hfails'
    · have hplaced := b.map_unplaced_placed (x.counter Sequence.events + 1)
        (s.counter Sequence.events + 1)
      refine ⟨congrArg Except.ok hplaced, ?_, ?_⟩
      · rw [hheads, hheads', SortedMap.get?_insert_self, SortedMap.get?_insert_self, Batch.kindIn,
          hsame.head, Batch.kindIn]
      · rw [hlist, hlist', eventsOf_append, eventsOf_append, eventsOf_placed, eventsOf_placed,
          if_pos rfl, if_pos rfl, List.map_append, List.map_append, hsame.events, hplaced]

end Append

/-! ### One batch after another -/

/-- **Batches for different streams that bring nothing but what is new**, and not more than can be
counted. -/
structure Store.TakesAll (batches : List Batch) (s : Store) : Prop where
  /-- There is one batch a stream. -/
  nodup_streams : (batches.map (·.stream)).Nodup
  /-- The batches have events. -/
  nonempty : ∀ b ∈ batches, b.drafts ≠ []
  /-- No identifier is used twice. -/
  nodup_ids : (batches.flatMap Batch.ids).Nodup
  /-- No identifier is in use. -/
  unused : ∀ e ∈ s.events.toList, e.id ∉ batches.flatMap Batch.ids
  /-- There are positions left for all. -/
  total_le : s.events.toList.length + (batches.map (·.drafts.length)).sum ≤ Text.maxWord

namespace Store.TakesAll

variable {b : Batch} {rest : List Batch} {s s' : Store} {r : Except LogError (List Event)}

/-- The identifiers of the first batch, and those of the others. -/
theorem nodup_ids_cons (h : s.TakesAll (b :: rest)) :
    b.ids.Nodup ∧ (rest.flatMap Batch.ids).Nodup ∧
      ∀ id ∈ b.ids, ∀ id' ∈ rest.flatMap Batch.ids, id ≠ id' :=
  List.nodup_append.mp (List.flatMap_cons ▸ h.nodup_ids)

/-- The positions for the first batch, and those for the others. -/
theorem total_le_cons (h : s.TakesAll (b :: rest)) :
    s.events.toList.length + (b.drafts.length + (rest.map (·.drafts.length)).sum) ≤
      Text.maxWord := by
  have htotal := h.total_le
  rwa [List.map_cons, List.sum_cons] at htotal

/-- The first batch fits in. -/
theorem storable (h : s.TakesAll (b :: rest)) (hs : s.Ordered) : b.Storable s := by
  have htotal := h.total_le_cons
  rw [hs.length_toList] at htotal
  have hpos := List.length_pos_of_ne_nil (h.nonempty b List.mem_cons_self)
  refine ⟨h.nodup_ids_cons.1, fun e he hid => h.unused e he ?_, by omega⟩
  exact List.mem_append_left _ hid

/-- The others still fit in when there is one batch less. -/
theorem tail (h : s.TakesAll (b :: rest)) : s.TakesAll rest := by
  have htotal := h.total_le_cons
  exact ⟨(List.nodup_cons.mp h.nodup_streams).2,
    fun b' hb' => h.nonempty b' (List.mem_cons_of_mem _ hb'), h.nodup_ids_cons.2.1,
    fun e he hid => h.unused e he (List.mem_append_right _ hid), by omega⟩

/-- **The others still fit in** when the first batch has been appended. -/
theorem after (h : s.TakesAll (b :: rest)) (hs : s.Ordered) (halone : Append.Alone b s r s') :
    s'.TakesAll rest := by
  have htotal := h.total_le_cons
  obtain ⟨hok, herror⟩ := halone.toList_eq hs
  cases r with
  | error e =>
    refine { h.tail with unused := ?_, total_le := ?_ }
    · rw [herror e rfl]
      exact h.tail.unused
    · rw [herror e rfl]
      exact h.tail.total_le
  | ok events =>
    obtain ⟨heq, hlist⟩ := hok events rfl
    refine { h.tail with unused := fun e he hid => ?_, total_le := ?_ }
    · rw [hlist] at he
      rcases List.mem_append.mp he with he | he
      · exact h.tail.unused e he hid
      · rw [heq] at he
        obtain ⟨k, hk, rfl⟩ := Batch.mem_placed_iff.mp he
        exact h.nodup_ids_cons.2.2 _ (List.mem_map_of_mem (List.getElem_mem hk)) _ hid rfl
    · rw [hlist, List.length_append, heq, Batch.length_placed]
      omega

end Store.TakesAll

namespace AppendEach

/-- **What a batch has come to among others**, as the store `s` has become `s'`: what it would have
come to alone, up to positions. -/
def AsAlone (s s' : Store) (b : Batch) (result : StreamResult) : Prop :=
  result.1 = b.stream ∧ ∃ r s₁, Append.Ends b 6 (.start b) s r s₁ ∧
    result.2.map (List.map Event.unplaced) = r.map (List.map Event.unplaced) ∧
    s₁.SameStream b.stream s'

/-- The events of the results, in their order. -/
def stored (results : List StreamResult) : List Event := results.flatMap fun p => eventsIn p.2

/-- **One batch after another**, on a store `x` that agrees with `s` on their streams. -/
theorem ends_proceed {s : Store} (hs : s.Bounded) (fuel : Nat) {batches : List Batch} {x : Store}
    (hx : x.Bounded) (htakes : s.TakesAll batches) (htakes' : x.TakesAll batches)
    (hsame : ∀ b ∈ batches, s.SameStream b.stream x) (results : List StreamResult) :
    ∃ new x', Progress.Ends next (6 * batches.length + (fuel + 1)) (proceed results batches) x
        (results ++ new) x' ∧
      List.Forall₂ (AsAlone s x') batches new ∧
      x'.events.toList = x.events.toList ++ stored new ∧
      Follow x.events.toList.length (stored new) ∧
      ∀ stream, stream ∉ batches.map (·.stream) → x.SameStream stream x' := by
  induction batches generalizing x results with
  | nil =>
    refine ⟨[], x, ?_, .nil, (List.append_nil _).symm, trivial, fun stream _ => .refl stream x⟩
    rw [List.append_nil, List.length_nil, Nat.mul_zero, Nat.zero_add]
    exact Progress.ends_of_result? rfl
  | cons b rest ih =>
    obtain ⟨hb, -⟩ := List.nodup_cons.mp htakes.nodup_streams
    obtain ⟨r₀, s₀, hends₀, halone₀⟩ := Append.ends_alone (b := b) hs 0
    obtain ⟨r, x₁, hends, halone⟩ := Append.ends_alone (b := b) hx 0
    obtain ⟨hlist₁, hfollow₁⟩ := halone.toList_eventsIn hx.ordered
    -- the batch comes to what it would have come to alone
    obtain ⟨hr, hsame₀⟩ := halone₀.alike halone hs.ordered hx.ordered
      (htakes.nonempty b List.mem_cons_self) (htakes.storable hs.ordered)
      (htakes'.storable hx.ordered) (hsame b List.mem_cons_self)
    have hothers : ∀ b' ∈ rest, s.SameStream b'.stream x₁ := fun b' hb' => by
      have hne : b'.stream ≠ b.stream := fun heq => hb (List.mem_map.mpr ⟨b', hb', heq⟩)
      exact (hsame b' (List.mem_cons_of_mem _ hb')).trans
        (halone.sameStream_of_ne hx.ordered hne)
    obtain ⟨new, x', hrun, hall, hlist, hfollow, hrest⟩ := ih (halone.bounded hx) htakes.tail
      (htakes'.after hx.ordered halone) hothers (results ++ [(b.stream, r)])
    rw [hlist₁] at hlist hfollow
    rw [List.length_append] at hfollow
    refine ⟨(b.stream, r) :: new, x', ?_, .cons ⟨rfl, r₀, s₀, hends₀, hr, hsame₀.trans ?_⟩ hall,
      ?_, hfollow₁.append hfollow, fun stream hstream => ?_⟩
    · have hsteps := @Progress.Ends.within _ _ _ _ _ _ _ _ _ _ hends next
        (fun a => appending results b a rest)
        (fun r => proceed (results ++ [(b.stream, r)]) rest) (fun _ => rfl) _ _ _ hrun
      rw [List.append_assoc, List.singleton_append] at hsteps
      rw [List.length_cons, Nat.mul_succ, Nat.add_comm (6 * rest.length), Nat.add_assoc]
      exact hsteps
    · exact hrest b.stream hb
    · rw [hlist, List.append_assoc]
      rfl
    · rw [List.map_cons, List.mem_cons, not_or] at hstream
      exact (halone.sameStream_of_ne hx.ordered hstream.1).trans (hrest stream hstream.2)

/-- What proposals for identifiers that are new ask for can be stored. -/
theorem takesAll_batchesOf {s : Store} (hs : s.Ordered) {ps : List Proposal}
    (hnodup : (ps.map (·.draft.id)).Nodup)
    (hunused : ∀ e ∈ s.events.toList, ∀ p ∈ ps, p.draft.id ≠ e.id)
    (htotal : s.counter Sequence.events + ps.length ≤ Text.maxWord) :
    s.TakesAll (batchesOf ps) := by
  have hperm := flatMap_drafts_perm ps
  have hids : ((batchesOf ps).flatMap Batch.ids).Perm (ps.map (·.draft.id)) := by
    have hmap := hperm.map (·.id)
    rwa [List.map_flatMap, List.map_map] at hmap
  have hlength : ((batchesOf ps).map (·.drafts.length)).sum = ps.length := by
    rw [← List.length_flatMap, hperm.length_eq, List.length_map]
  refine ⟨?_, fun b hb => ?_, hids.nodup_iff.mpr hnodup, fun e he hid => ?_, ?_⟩
  · rw [batchesOf_eq, List.map_map]
    exact (List.map_id _).symm ▸ nodup_streamsOf ps
  · rw [batchesOf_eq] at hb
    obtain ⟨stream, hstream, rfl⟩ := List.mem_map.mp hb
    exact batchFor_drafts_ne_nil hstream
  · obtain ⟨p, hp, heq⟩ := List.mem_map.mp (hids.mem_iff.mp hid)
    exact hunused e he p hp heq
  · rw [hs.length_toList, hlength]
    exact htotal

/-- **Streams do not meet.** Whatever the log was asked before: proposals that bring identifiers
that are new, and not more than can be counted, have one result a stream, in the order in which the
streams first occur. The result of a stream, its head and its events are, up to positions, those of
its batch alone: what it would have come to if only that had been asked of the log. The events of
the results stand at the end of the log, at consecutive positions, in the order of the results. -/
theorem each_as_alone (requests : List LogRequest) (schedule : List Nat) {s : Store}
    (hs : (Interleaving.run Client.next schedule ⟨.empty, requests.map Client.start⟩).store = s)
    {ps : List Proposal} (hnodup : (ps.map (·.draft.id)).Nodup)
    (hunused : ∀ e ∈ s.events.toList, ∀ p ∈ ps, p.draft.id ≠ e.id)
    (htotal : s.counter Sequence.events + ps.length ≤ Text.maxWord) (fuel : Nat) :
    ∃ results warnings s',
      Progress.runAlone next (6 * (streamsOf ps).length + (fuel + 1)) (start ps) s =
        some (results, warnings, s') ∧
      List.Forall₂ (fun stream result => result.1 = stream ∧
        ∃ r warnings s₁, Progress.runAlone (Append.next (batchFor ps stream)) 6
            (.start (batchFor ps stream)) s = some (r, warnings, s₁) ∧
          result.2.map (List.map Event.unplaced) = r.map (List.map Event.unplaced) ∧
          s'.heads.get? stream = s₁.heads.get? stream ∧
          (eventsOf stream s'.events.toList).map Event.unplaced =
            (eventsOf stream s₁.events.toList).map Event.unplaced) (streamsOf ps) results ∧
      s'.events.toList = s.events.toList ++ results.flatMap (fun p => eventsIn p.2) ∧
      Follow (s.counter Sequence.events) (results.flatMap fun p => eventsIn p.2) := by
  have hbounded : s.Bounded := hs ▸ Interleaving.bounded_run requests schedule
  have htakes := takesAll_batchesOf hbounded.ordered hnodup hunused htotal
  obtain ⟨results, s', ⟨warnings, hrun⟩, hall, hlist, hfollow, -⟩ :=
    ends_proceed hbounded fuel hbounded htakes htakes (fun b _ => .refl b.stream s) []
  rw [hbounded.ordered.length_toList] at hfollow
  rw [batchesOf_eq, List.forall₂_map_left_iff] at hall
  refine ⟨results, warnings, s', ?_, hall.imp fun stream result hresult => ?_, hlist, hfollow⟩
  · rw [← List.length_map (batchFor ps), ← batchesOf_eq]
    exact hrun
  · obtain ⟨hstream, r, s₁, ⟨warnings₁, hrun₁⟩, hr, hsame⟩ := hresult
    exact ⟨hstream, r, warnings₁, s₁, hrun₁, hr, hsame.head, hsame.events⟩

/-- Proposals for three streams, of which the first is not where it is expected and the last names
nothing. -/
def scattered : List Proposal :=
  [(1, 3, 10), (2, 0, 11), (1, 1, 12), (2, 7, 13), (0, 0, 14)].map fun (stream, expected, id) =>
    ⟨.ofNat stream, expected, .ofBytes (.ofNat id) .epoch "a" []⟩

theorem each_as_alone_scattered :
    let requests : List LogRequest := [⟨.append (.ofNumbers 1 0 [9]), rfl⟩]
    let s := (Interleaving.run Client.next (List.replicate 5 0)
      ⟨.empty, requests.map Client.start⟩).store
    s.counter Sequence.events = 1 ∧ ∃ results warnings s',
      Progress.runAlone next 19 (start scattered) s = some (results, warnings, s') ∧
      List.Forall₂ (fun stream result => result.1 = stream) [.ofNat 1, .ofNat 2, .ofNat 0] results ∧
      Follow 1 (results.flatMap fun p => eventsIn p.2) ∧
      (s'.events.toList.map fun e => (e.stream, e.index, e.position)) =
        [(.ofNat 1, 0, 1), (.ofNat 2, 0, 2), (.ofNat 2, 1, 3)] := by
  intro requests s
  have hcounter : s.counter Sequence.events = 1 := by decide +kernel
  have hnodup : (scattered.map (·.draft.id)).Nodup := by decide +kernel
  have hunused : ∀ e ∈ s.events.toList, ∀ p ∈ scattered, p.draft.id ≠ e.id := by decide +kernel
  have hstreams : streamsOf scattered = [.ofNat 1, .ofNat 2, .ofNat 0] := by decide +kernel
  obtain ⟨results, warnings, s', hrun, hall, -, hfollow⟩ :=
    each_as_alone requests (List.replicate 5 0) rfl hnodup hunused
      (by rw [hcounter]; decide) 0
  rw [hstreams] at hrun hall
  rw [hcounter] at hfollow
  change Progress.runAlone next 19 (start scattered) s = _ at hrun
  have hlog : (Progress.runAlone next 19 (start scattered) s).map (fun r =>
      r.2.2.events.toList.map fun e => (e.stream, e.index, e.position)) =
        some [(.ofNat 1, 0, 1), (.ofNat 2, 0, 2), (.ofNat 2, 1, 3)] := by decide +kernel
  rw [hrun] at hlog
  exact ⟨hcounter, results, warnings, s', hrun, hall.imp fun _ _ h => h.1, hfollow,
    Option.some.inj hlog⟩

end AppendEach

end EventJournal
