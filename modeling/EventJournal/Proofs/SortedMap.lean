import EventJournal.SortedMap
import Mathlib.Data.List.Sort

/-!
# Sorted maps, by what is found in them

Every operation on a sorted map is said here through `EventJournal.SortedMap.get?`, and
`get?` through the entries (`EventJournal.SortedMap.get?_eq_some_iff`), so that a proof about
a table never has to look at a list of entries. That the entries ascend is used twice: the
entry found at a key is the only one there is, and two maps in which the same is found are
the same map (`EventJournal.SortedMap.ext_get?`).
-/

namespace EventJournal

namespace SortedMap

variable {κ ν : Type} [LT κ] [DecidableLT κ] [KeyOrder κ]

/-! ### Entries -/

omit [DecidableLT κ] in
/-- Of two related keys neither is the other. -/
theorem ne_of_key_lt {a b : κ} (h : a < b) : a ≠ b := fun heq =>
  KeyOrder.irrefl a (heq.symm ▸ h)

/-- **What is found at a key is the entry of the key.** -/
theorem findEntry_eq_some_iff {key : κ} {value : ν} {entries : List (κ × ν)}
    (h : entries.Pairwise fun a b => a.1 < b.1) :
    findEntry key entries = some value ↔ (key, value) ∈ entries := by
  induction entries with
  | nil => simp [findEntry]
  | cons e rest ih =>
    obtain ⟨he, hrest⟩ := List.pairwise_cons.mp h
    rw [findEntry]
    split
    · -- the key comes later, if at all
      next hlt =>
      rw [ih hrest, List.mem_cons]
      refine ⟨Or.inr, fun hmem => hmem.resolve_left fun heq => ?_⟩
      exact ne_of_key_lt hlt (congrArg Prod.fst heq).symm
    · next hnlt =>
      split
      · next hlt =>
        refine ⟨fun hnone => absurd hnone.symm (Option.some_ne_none value), fun hmem => ?_⟩
        rcases List.mem_cons.mp hmem with heq | hmem
        · exact absurd (congrArg Prod.fst heq) (ne_of_key_lt hlt)
        · exact absurd (KeyOrder.trans hlt (he _ hmem)) (KeyOrder.irrefl key)
      · -- the entry is at the key, and all after it are at greater ones
        next hngt =>
        obtain rfl : e.1 = key := KeyOrder.connected hnlt hngt
        rw [Option.some.injEq, List.mem_cons]
        refine ⟨fun hv => Or.inl (by rw [← hv]), fun hmem => ?_⟩
        rcases hmem with heq | hmem
        · exact (congrArg Prod.snd heq).symm
        · exact absurd (he _ hmem) (KeyOrder.irrefl e.1)

theorem get?_eq_some_iff {m : SortedMap κ ν} {key : κ} {value : ν} :
    m.get? key = some value ↔ (key, value) ∈ m.entries :=
  findEntry_eq_some_iff m.ascending

/-- **A map is what is found in it.** -/
theorem ext_get? {m m' : SortedMap κ ν} (h : ∀ key, m.get? key = m'.get? key) : m = m' := by
  have hmem : ∀ e : κ × ν, e ∈ m.entries ↔ e ∈ m'.entries := fun e => by
    rw [← get?_eq_some_iff, ← get?_eq_some_iff, h]
  have hnodup : ∀ m : SortedMap κ ν, m.entries.Nodup := fun m =>
    m.ascending.imp fun hlt heq => ne_of_key_lt hlt (congrArg Prod.fst heq)
  have hperm : m.entries.Perm m'.entries :=
    (List.perm_ext_iff_of_nodup (hnodup m) (hnodup m')).mpr hmem
  -- ascending lists with the same members are the same list
  have heq : m.entries = m'.entries :=
    hperm.eq_of_pairwise (fun a b _ _ hab hba =>
      absurd (KeyOrder.trans hab hba) (KeyOrder.irrefl a.1)) m.ascending m'.ascending
  cases m
  cases m'
  congr

/-! ### Operations -/

theorem get?_insert [DecidableEq κ] (m : SortedMap κ ν) (key other : κ) (value : ν) :
    (m.insert key value).get? other = if other = key then some value else m.get? other := by
  split
  · next h => rw [h, get?_insert_self]
  · next h => exact get?_insert_of_ne m h value

theorem get?_filter_eq_some_iff {m : SortedMap κ ν} {keep : κ × ν → Bool} {key : κ}
    {value : ν} :
    (m.filter keep).get? key = some value ↔ m.get? key = some value ∧ keep (key, value) = true := by
  rw [get?_eq_some_iff, get?_eq_some_iff]
  exact List.mem_filter

@[simp] theorem get?_erase_self (m : SortedMap κ ν) (key : κ) : (m.erase key).get? key = none := by
  rw [Option.eq_none_iff_forall_ne_some]
  intro value h
  have hirr := KeyOrder.irrefl key
  simpa [hirr] using (get?_filter_eq_some_iff.mp h).2

theorem get?_erase_of_ne (m : SortedMap κ ν) {key other : κ} (hne : other ≠ key) :
    (m.erase key).get? other = m.get? other := by
  refine Option.ext fun value => ?_
  refine get?_filter_eq_some_iff.trans (and_iff_left ?_)
  simp only [Bool.or_eq_true, decide_eq_true_eq]
  by_contra hcon
  rw [not_or] at hcon
  exact hne (KeyOrder.connected hcon.1 hcon.2)

theorem get?_erase [DecidableEq κ] (m : SortedMap κ ν) (key other : κ) :
    (m.erase key).get? other = if other = key then none else m.get? other := by
  split
  · next h => rw [h, get?_erase_self]
  · next h => exact get?_erase_of_ne m h

/-- The entries above a key. -/
theorem get?_above_eq_some_iff {m : SortedMap κ ν} {key other : κ} {value : ν} :
    (m.above key).get? other = some value ↔ m.get? other = some value ∧ key < other := by
  rw [above, get?_filter_eq_some_iff, decide_eq_true_eq]

omit [KeyOrder κ] in
theorem contains_eq_true_iff {m : SortedMap κ ν} {key : κ} :
    m.contains key = true ↔ ∃ value, m.get? key = some value :=
  Option.isSome_iff_exists

omit [KeyOrder κ] in
theorem contains_eq_false_iff {m : SortedMap κ ν} {key : κ} :
    m.contains key = false ↔ m.get? key = none := by
  rw [contains, Option.isSome_eq_false_iff, Option.isNone_iff_eq_none]

theorem mem_values_iff {m : SortedMap κ ν} {value : ν} :
    value ∈ m.values ↔ ∃ key, m.get? key = some value := by
  rw [values, List.mem_map]
  refine ⟨fun ⟨e, he, hv⟩ => ⟨e.1, get?_eq_some_iff.mpr (hv ▸ he)⟩, fun ⟨key, h⟩ => ?_⟩
  exact ⟨(key, value), get?_eq_some_iff.mp h, rfl⟩

/-! ### Keys -/

theorem mem_keys_iff {m : SortedMap κ ν} {key : κ} :
    key ∈ m.keys ↔ ∃ value, m.get? key = some value := by
  rw [keys, List.mem_map]
  constructor
  · rintro ⟨e, he, rfl⟩
    exact ⟨e.2, get?_eq_some_iff.mpr he⟩
  · rintro ⟨value, h⟩
    exact ⟨(key, value), get?_eq_some_iff.mp h, rfl⟩

omit [DecidableLT κ] [KeyOrder κ] in
theorem pairwise_keys (m : SortedMap κ ν) : m.keys.Pairwise (· < ·) :=
  List.pairwise_map.mpr m.ascending

omit [DecidableLT κ] [KeyOrder κ] in
theorem length_keys (m : SortedMap κ ν) : m.keys.length = m.size := List.length_map _

/-- **The keys of a map that has the numbers between two bounds** and no others. -/
theorem keys_eq_range' {m : SortedMap Nat ν} {a b : Nat}
    (h : ∀ n, (∃ value, m.get? n = some value) ↔ a < n ∧ n ≤ b) :
    m.keys = List.range' (a + 1) (b - a) := by
  refine m.pairwise_keys.eq_of_mem_iff (List.pairwise_lt_range' 1) fun n => ?_
  rw [mem_keys_iff, h, List.mem_range'_1]
  omega

end SortedMap

end EventJournal
