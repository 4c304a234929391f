/-!
# Sorted maps

A finite map held as the list of its entries, with keys strictly ascending. The tables of
the store are such maps: what a range read answers is a stretch of the list, and two maps
that agree at every key are equal.

The order of the keys is asked for by `EventJournal.KeyOrder`. What each operation does to
the map is said through `SortedMap.get?`.
-/

namespace EventJournal

/-- A strict linear order on keys. -/
class KeyOrder (κ : Type) [LT κ] : Prop where
  /-- No key is below itself. -/
  irrefl : ∀ a : κ, ¬a < a
  /-- The order is transitive. -/
  trans : ∀ {a b c : κ}, a < b → b < c → a < c
  /-- Keys that are not related are equal. -/
  connected : ∀ {a b : κ}, ¬a < b → ¬b < a → a = b

instance : KeyOrder Nat where
  irrefl := Nat.lt_irrefl
  trans := Nat.lt_trans
  connected := fun h₁ h₂ => Nat.le_antisymm (Nat.not_lt.mp h₂) (Nat.not_lt.mp h₁)

instance : KeyOrder String where
  irrefl := String.lt_irrefl
  trans := String.lt_trans
  connected := fun h₁ h₂ => String.le_antisymm (String.not_lt.mp h₂) (String.not_lt.mp h₁)

/-- A finite map, its entries in ascending order of their keys. -/
structure SortedMap (κ ν : Type) [LT κ] where
  /-- The entries. -/
  entries : List (κ × ν)
  /-- The keys ascend, so that none occurs twice. -/
  ascending : entries.Pairwise fun a b => a.1 < b.1

namespace SortedMap

variable {κ ν : Type} [LT κ] [DecidableLT κ]

/-! ### Entries -/

/-- The entries with `value` put at `key`. -/
def putEntry (key : κ) (value : ν) : List (κ × ν) → List (κ × ν)
  | [] => [(key, value)]
  | e :: rest =>
    if key < e.1 then (key, value) :: e :: rest
    else if e.1 < key then e :: putEntry key value rest
    else (key, value) :: rest

/-- The value of the first entry whose key is not below `key`, if that key is `key`. -/
def findEntry (key : κ) : List (κ × ν) → Option ν
  | [] => none
  | e :: rest =>
    if e.1 < key then findEntry key rest
    else if key < e.1 then none
    else some e.2

theorem mem_putEntry {key : κ} {value : ν} {entries : List (κ × ν)} {e : κ × ν}
    (h : e ∈ putEntry key value entries) : e = (key, value) ∨ e ∈ entries := by
  induction entries with
  | nil => simp_all [putEntry]
  | cons d rest ih =>
    unfold putEntry at h
    split at h
    · simpa using h
    · split at h
      · rcases List.mem_cons.mp h with h | h
        · exact .inr (by simp [h])
        · exact (ih h).imp id (List.mem_cons_of_mem _)
      · rcases List.mem_cons.mp h with h | h
        · exact .inl h
        · exact .inr (List.mem_cons_of_mem _ h)

theorem putEntry_ascending [KeyOrder κ] {key : κ} {value : ν} {entries : List (κ × ν)}
    (h : entries.Pairwise fun a b => a.1 < b.1) :
    (putEntry key value entries).Pairwise fun a b => a.1 < b.1 := by
  induction entries with
  | nil => simp [putEntry]
  | cons d rest ih =>
    obtain ⟨hd, hrest⟩ := List.pairwise_cons.mp h
    unfold putEntry
    split
    · next hlt =>
      refine List.pairwise_cons.mpr ⟨fun e he => ?_, h⟩
      rcases List.mem_cons.mp he with rfl | he
      · exact hlt
      · exact KeyOrder.trans hlt (hd e he)
    · next hnlt =>
      split
      · next hgt =>
        refine List.pairwise_cons.mpr ⟨fun e he => ?_, ih hrest⟩
        rcases mem_putEntry he with rfl | he
        · exact hgt
        · exact hd e he
      · next hngt =>
        have hkey : key = d.1 := KeyOrder.connected hnlt hngt
        refine List.pairwise_cons.mpr ⟨fun e he => ?_, hrest⟩
        exact hkey ▸ hd e he

/-! ### The map -/

/-- The map of no entries. -/
def empty : SortedMap κ ν := ⟨[], List.Pairwise.nil⟩

instance : Inhabited (SortedMap κ ν) := ⟨empty⟩

/-- The value at a key. -/
def get? (m : SortedMap κ ν) (key : κ) : Option ν := findEntry key m.entries

/-- Whether the map has the key. -/
def contains (m : SortedMap κ ν) (key : κ) : Bool := (m.get? key).isSome

/-- The map with `value` at `key`, whatever stood there. -/
def insert [KeyOrder κ] (m : SortedMap κ ν) (key : κ) (value : ν) : SortedMap κ ν :=
  ⟨putEntry key value m.entries, putEntry_ascending m.ascending⟩

omit [DecidableLT κ] in
/-- The entries that satisfy `keep`. -/
def filter (m : SortedMap κ ν) (keep : κ × ν → Bool) : SortedMap κ ν :=
  ⟨m.entries.filter keep, m.ascending.filter _⟩

/-- The map without `key`. -/
def erase (m : SortedMap κ ν) (key : κ) : SortedMap κ ν :=
  m.filter fun e => e.1 < key || key < e.1

/-- The map of the entries whose keys lie above `key`. -/
def above (m : SortedMap κ ν) (key : κ) : SortedMap κ ν :=
  m.filter fun e => key < e.1

omit [DecidableLT κ] in
/-- The number of entries. -/
def size (m : SortedMap κ ν) : Nat := m.entries.length

omit [DecidableLT κ] in
/-- The keys, ascending. -/
def keys (m : SortedMap κ ν) : List κ := m.entries.map (·.1)

omit [DecidableLT κ] in
/-- The values, in the order of their keys. -/
def values (m : SortedMap κ ν) : List ν := m.entries.map (·.2)

/-- The values whose keys lie between `first` and `last`, both included, in the order of
their keys. -/
def range (m : SortedMap κ ν) (first last : κ) : List ν :=
  (m.filter fun e => !(e.1 < first) && !(last < e.1)).values

/-! ### Look-up -/

@[simp] theorem get?_empty (key : κ) : (empty : SortedMap κ ν).get? key = none := rfl

theorem findEntry_putEntry_self [KeyOrder κ] (key : κ) (value : ν) (entries : List (κ × ν)) :
    findEntry key (putEntry key value entries) = some value := by
  have irr := KeyOrder.irrefl key
  induction entries with
  | nil => simp [putEntry, findEntry, irr]
  | cons e rest ih =>
    unfold putEntry
    split
    · simp [findEntry, irr]
    · split
      · next h => simp [findEntry, h, ih]
      · simp [findEntry, irr]

theorem findEntry_putEntry_of_ne [KeyOrder κ] {key other : κ} (hne : other ≠ key) (value : ν)
    {entries : List (κ × ν)} :
    findEntry other (putEntry key value entries) = findEntry other entries := by
  induction entries with
  | nil =>
    unfold putEntry findEntry
    split
    · rfl
    · next h =>
      split
      · rfl
      · next h' => exact absurd (KeyOrder.connected h' h) hne
  | cons e rest ih =>
    unfold putEntry
    split
    · next hlt =>
      by_cases hk : key < other
      · simp [findEntry, hk]
      · have ho : other < key :=
          Classical.byContradiction fun h => hne (KeyOrder.connected h hk)
        have hoe := KeyOrder.trans ho hlt
        have hneg : ¬e.1 < other := fun h => KeyOrder.irrefl _ (KeyOrder.trans h hoe)
        simp [findEntry, hk, ho, hoe, hneg]
    · next hnlt =>
      split
      · simp only [findEntry, ih]
      · next hngt =>
        obtain rfl : key = e.1 := KeyOrder.connected hnlt hngt
        by_cases hk : e.1 < other
        · simp [findEntry, hk]
        · have ho : other < e.1 :=
            Classical.byContradiction fun h => hne (KeyOrder.connected h hk)
          simp [findEntry, hk, ho]

@[simp] theorem get?_insert_self [KeyOrder κ] (m : SortedMap κ ν) (key : κ) (value : ν) :
    (m.insert key value).get? key = some value :=
  findEntry_putEntry_self key value m.entries

theorem get?_insert_of_ne [KeyOrder κ] (m : SortedMap κ ν) {key other : κ} (hne : other ≠ key)
    (value : ν) : (m.insert key value).get? other = m.get? other :=
  findEntry_putEntry_of_ne hne value

end SortedMap

end EventJournal
