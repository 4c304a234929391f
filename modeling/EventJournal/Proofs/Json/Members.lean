import EventJournal.Proofs.Json.Record
import Mathlib.Data.List.Forall2
import Mathlib.Data.List.Nodup

/-!
# Members in any order

The members of an object are read one after another, and each either finds a field or is passed
over (`EventJournal.Json.Finds`). What a run of members leaves (`EventJournal.Json.Found`) is told
by their names alone: the fields that were named, in the order in which they stand, none twice. So

* an object that is read names each field once, and gives it a value
  (`EventJournal.Json.count_of_fieldsOf?`);
* members that carry the fields (`EventJournal.Json.Carry`) are read as the fields, in whatever
  order they stand and whatever stands between them (`EventJournal.Json.Carry.fieldsOf?_eq`).

Of a list the values are taken in the order of the fields, and there are as many as fields
(`EventJournal.Json.length_of_rowOf?`).
-/

namespace EventJournal

namespace Json

/-! ### Fields by name -/

section Lookup

variable {α : Type} {fields : List (String × α)} {name : String} {d : α}

theorem lookup_of_mem (hnodup : (fields.map (·.1)).Nodup) (h : (name, d) ∈ fields) :
    fields.lookup name = some d := by
  obtain ⟨before, after, rfl⟩ := List.append_of_mem h
  refine List.lookup_eq_some_iff.mpr ⟨before, after, rfl, fun p hp => ?_⟩
  rw [List.map_append, List.map_cons] at hnodup
  have hne := (List.nodup_append.mp hnodup).2.2 p.1 (List.mem_map_of_mem hp) name
    List.mem_cons_self
  exact bne_iff_ne.mpr hne.symm

theorem mem_of_lookup (h : fields.lookup name = some d) : (name, d) ∈ fields := by
  obtain ⟨before, after, rfl, -⟩ := List.lookup_eq_some_iff.mp h
  exact List.mem_append_right _ List.mem_cons_self

theorem isSome_lookup_iff : (fields.lookup name).isSome ↔ name ∈ fields.map (·.1) := by
  constructor
  · intro h
    obtain ⟨d, hd⟩ := Option.isSome_iff_exists.mp h
    exact List.mem_map_of_mem (mem_of_lookup hd)
  · intro h
    obtain ⟨p, hp, rfl⟩ := List.mem_map.mp h
    by_contra hnone
    rw [Bool.not_eq_true, Option.isSome_eq_false_iff, Option.isNone_iff_eq_none,
      List.lookup_eq_none_iff] at hnone
    exact bne_iff_ne.mp (hnone p hp) rfl

end Lookup

/-- The shape that fields have. -/
def shapeOf (fields : List (String × Datum)) : Shape := fields.map fun f => (f.1, f.2.kind)

theorem names_shapeOf (fields : List (String × Datum)) :
    (shapeOf fields).map (·.1) = fields.map (·.1) := by
  rw [shapeOf, List.map_map]
  rfl

theorem lookup_shapeOf (fields : List (String × Datum)) (name : String) :
    (shapeOf fields).lookup name = (fields.lookup name).map Datum.kind := by
  induction fields with
  | nil => rfl
  | cons f fields ih =>
    rw [shapeOf, List.map_cons, ← shapeOf, List.lookup_cons, List.lookup_cons, ih]
    cases name == f.1 <;> rfl

/-! ### The values of a list -/

theorem rowOf?_of_spelled {fields : List (String × Datum)} {items : List Item}
    (hwritable : ∀ f ∈ fields, f.2.IsWritable)
    (h : List.Forall₂ (fun f i => f.2.Spelled i.body) fields items) :
    rowOf? (shapeOf fields) items = some (fields.map (·.2)) := by
  induction h with
  | nil => rfl
  | @cons f i fields items hspelled _ ih =>
    rw [List.forall_mem_cons] at hwritable
    have hvalue : valueOf? f.2.kind i.body = some f.2 :=
      (hspelled.yields hwritable.1).outcome_eq
    rw [shapeOf, List.map_cons, ← shapeOf, rowOf?, hvalue, ih hwritable.2]
    rfl

theorem wellFormed_of_spelled {fields : List (String × Datum)} {items : List Item}
    (h : List.Forall₂ (fun f i => f.2.Spelled i.body) fields items) :
    ∀ i ∈ items, WellFormed i.body := by
  induction h with
  | nil => exact nofun
  | cons hspelled _ ih =>
    rw [List.forall_mem_cons]
    exact ⟨hspelled.wellFormed, ih⟩

theorem length_of_rowOf? {shape : Shape} {items : List Item} {data : List Datum}
    (h : rowOf? shape items = some data) :
    items.length = shape.length ∧ ∀ i ∈ items, i.body ≠ nullText := by
  fun_induction rowOf? shape items generalizing data with
  | case1 => exact ⟨rfl, List.forall_mem_nil _⟩
  | case2 => cases h
  | case3 => cases h
  | case4 name kind shape i items ih =>
    obtain ⟨d, hd, hmap⟩ := Option.bind_eq_some_iff.mp h
    obtain ⟨ds, hds, -⟩ := Option.map_eq_some_iff.mp hmap
    obtain ⟨hlength, hnull⟩ := ih hds
    refine ⟨by rw [List.length_cons, List.length_cons, hlength], ?_⟩
    rw [List.forall_mem_cons]
    refine ⟨fun heq => ?_, hnull⟩
    rw [heq, valueOf?_null] at hd
    cases hd

/-! ### The members of an object -/

/-- The names of members that stand for texts. -/
def namesOf (members : List Member) : List String := members.filterMap Member.name?

/-- **The members that fields are read from**: every name stands for a text and every value is
well formed, each field is named once, and the value of its member spells it. Members of other
names may stand among them. -/
structure Carry (members : List Member) (fields : List (String × Datum)) : Prop where
  /-- The names stand for texts. -/
  named : ∀ m ∈ members, ∃ name, m.name? = some name
  /-- The values are well formed. -/
  wellFormed : ∀ m ∈ members, WellFormed m.value.body
  /-- Each field is named once. -/
  once : ∀ f ∈ fields, (namesOf members).count f.1 = 1
  /-- The member that names a field spells its value. -/
  spelled : ∀ m ∈ members, ∀ f ∈ fields, m.name? = some f.1 → f.2.Spelled m.value.body

/-- **What one more member does to the fields that have been found.** -/
inductive Finds (shape : Shape) (found : List (String × Datum)) (m : Member) :
    List (String × Datum) → Prop
  /-- The member names a field that had not been found. -/
  | field {name kind d} : m.name? = some name → shape.lookup name = some kind →
    found.lookup name = none → valueOf? kind m.value.body = some d →
      Finds shape found m (found ++ [(name, d)])
  /-- The member names no field. -/
  | extra {name} : m.name? = some name → shape.lookup name = none → Finds shape found m found

theorem memberOf?_eq_some_iff {shape : Shape} {found found' : List (String × Datum)} {m : Member} :
    memberOf? shape found m = some found' ↔ Finds shape found m found' := by
  rw [memberOf?]
  constructor
  · intro h
    obtain ⟨name, hname, h⟩ := Option.bind_eq_some_iff.mp h
    split at h
    · next hlookup =>
      cases h
      exact .extra hname hlookup
    · next kind hlookup =>
      split at h
      · cases h
      · next hfound =>
        obtain ⟨d, hd, rfl⟩ := Option.map_eq_some_iff.mp h
        exact .field hname hlookup (Option.not_isSome_iff_eq_none.mp hfound) hd
  · rintro (⟨hname, hlookup, hfound, hd⟩ | ⟨hname, hlookup⟩)
    · simp [hname, hlookup, hfound, hd]
    · simp [hname, hlookup]

/-- **What a run of members leaves**, the fields `found'` having been found from `found` on. -/
structure Found (shape : Shape) (found : List (String × Datum)) (members : List Member)
    (found' : List (String × Datum)) : Prop where
  /-- The fields that were named have been found, in their order. -/
  names : found'.map (·.1) =
    found.map (·.1) ++ (namesOf members).filter fun name => (shape.lookup name).isSome
  /-- No field has been found twice. -/
  nodup : (found.map (·.1)).Nodup → (found'.map (·.1)).Nodup
  /-- No field was given no value. -/
  not_null : ∀ m ∈ members, ∀ name, m.name? = some name → (shape.lookup name).isSome →
    m.value.body ≠ nullText

theorem Finds.found {shape : Shape} {found found' : List (String × Datum)} {m : Member}
    (h : Finds shape found m found') : Found shape found [m] found' := by
  cases h with
  | @field name kind d hname hlookup hfound hd =>
    have hfresh : name ∉ found.map (·.1) := by
      rw [← isSome_lookup_iff, hfound]
      exact Bool.false_ne_true
    refine ⟨?_, fun hnodup => ?_, ?_⟩
    · simp [namesOf, hname, hlookup]
    · rw [List.map_append, List.map_singleton]
      exact List.nodup_append.mpr ⟨hnodup, List.nodup_singleton name, by
        rintro a ha b hb rfl
        obtain rfl : a = name := List.mem_singleton.mp hb
        exact hfresh ha⟩
    · rintro m' hm' name' hname' hfield hnull
      obtain rfl := List.mem_singleton.mp hm'
      rw [hnull, valueOf?_null] at hd
      cases hd
  | @extra name hname hlookup =>
    refine ⟨?_, id, ?_⟩
    · simp [namesOf, hname, hlookup]
    · rintro m' hm' name' hname' hfield
      obtain rfl := List.mem_singleton.mp hm'
      rw [hname] at hname'
      cases hname'
      rw [hlookup] at hfield
      cases hfield

theorem Found.trans {shape : Shape} {found found' found'' : List (String × Datum)} {m : Member}
    {members : List Member} (h : Found shape found [m] found')
    (h' : Found shape found' members found'') : Found shape found (m :: members) found'' := by
  have hnames : namesOf (m :: members) = namesOf [m] ++ namesOf members := by
    rw [namesOf, namesOf, namesOf, ← List.filterMap_append]
    rfl
  refine ⟨?_, fun hnodup => h'.nodup (h.nodup hnodup), ?_⟩
  · rw [h'.names, h.names, hnames, List.filter_append, List.append_assoc]
  · rw [List.forall_mem_cons]
    exact ⟨h.not_null m List.mem_cons_self, h'.not_null⟩

/-- **A run of members that is read.** -/
theorem found_of_foldlM {shape : Shape} {found found' : List (String × Datum)}
    {members : List Member} (h : members.foldlM (memberOf? shape) found = some found') :
    Found shape found members found' := by
  induction members generalizing found with
  | nil =>
    cases h
    exact ⟨(List.append_nil _).symm, id, nofun⟩
  | cons m members ih =>
    rw [List.foldlM_cons] at h
    obtain ⟨found₁, hm, hmembers⟩ := Option.bind_eq_some_iff.mp h
    exact (memberOf?_eq_some_iff.mp hm).found.trans (ih hmembers)

theorem inOrder_cons (f : String × Kind) (shape : Shape) (found : List (String × Datum)) :
    (inOrder (f :: shape) found).toOption =
      (found.lookup f.1).bind fun d => (inOrder shape found).toOption.map (d :: ·) := by
  rw [inOrder, List.mapM_cons, toOption_bind]
  cases found.lookup f.1 with
  | none => rfl
  | some d =>
    refine (toOption_bind _ _).trans ?_
    rw [← inOrder]
    cases inOrder shape found <;> rfl

theorem isSome_of_inOrder {shape : Shape} {found : List (String × Datum)} {data : List Datum}
    (h : (inOrder shape found).toOption = some data) :
    ∀ f ∈ shape, (found.lookup f.1).isSome := by
  induction shape generalizing data with
  | nil => exact nofun
  | cons f shape ih =>
    rw [inOrder_cons] at h
    obtain ⟨d, hd, hmap⟩ := Option.bind_eq_some_iff.mp h
    obtain ⟨ds, hds, -⟩ := Option.map_eq_some_iff.mp hmap
    rw [List.forall_mem_cons]
    exact ⟨Option.isSome_iff_exists.mpr ⟨d, hd⟩, ih hds⟩

/-- **An object that is read names each field once, and gives it a value.** -/
theorem count_of_fieldsOf? {shape : Shape} {members : List Member} {data : List Datum}
    (h : fieldsOf? shape members = some data) {f : String × Kind} (hf : f ∈ shape) :
    (namesOf members).count f.1 = 1 ∧
      ∀ m ∈ members, m.name? = some f.1 → m.value.body ≠ nullText := by
  obtain ⟨found, hrun, horder⟩ := Option.bind_eq_some_iff.mp h
  have hfound := found_of_foldlM hrun
  have hfield : (shape.lookup f.1).isSome := isSome_lookup_iff.mpr (List.mem_map_of_mem hf)
  refine ⟨?_, fun m hm hname => hfound.not_null m hm f.1 hname hfield⟩
  have hmem : f.1 ∈ found.map (·.1) := isSome_lookup_iff.mp (isSome_of_inOrder horder f hf)
  have hcount := List.count_eq_one_of_mem (hfound.nodup List.nodup_nil) hmem
  rw [hfound.names, List.map_nil, List.nil_append] at hcount
  rw [← hcount]
  exact (List.count_filter (p := fun name => (shape.lookup name).isSome) hfield).symm

/-- The field that a member names, of the given ones. -/
def Member.field? (fields : List (String × Datum)) (m : Member) : Option (String × Datum) :=
  m.name?.bind fun name => (fields.lookup name).map (name, ·)

theorem field?_eq_some_iff {fields : List (String × Datum)} {m : Member} {f : String × Datum} :
    m.field? fields = some f ↔ m.name? = some f.1 ∧ fields.lookup f.1 = some f.2 := by
  rw [Member.field?]
  constructor
  · intro h
    obtain ⟨name, hname, h⟩ := Option.bind_eq_some_iff.mp h
    obtain ⟨d, hd, rfl⟩ := Option.map_eq_some_iff.mp h
    exact ⟨hname, hd⟩
  · rintro ⟨hname, hlookup⟩
    rw [hname, Option.bind_some, hlookup]
    rfl

theorem names_filterMap_field? (fields : List (String × Datum)) (members : List Member) :
    (members.filterMap (Member.field? fields)).map (·.1) =
      (namesOf members).filter fun name => (fields.lookup name).isSome := by
  rw [namesOf, List.map_filterMap, List.filter_filterMap]
  congr 1
  funext m
  rw [Member.field?]
  cases m.name? with
  | none => rfl
  | some name =>
    rw [Option.bind_some, Option.filter_some]
    cases fields.lookup name <;> rfl

/-- One member whose value is that of its field, if it names one. -/
theorem memberOf?_field? {fields found : List (String × Datum)} {m : Member}
    (hnamed : ∃ name, m.name? = some name)
    (hvalue : ∀ f, m.field? fields = some f → valueOf? f.2.kind m.value.body = some f.2)
    (hfresh : ∀ f, m.field? fields = some f → f.1 ∉ found.map (·.1)) :
    memberOf? (shapeOf fields) found m = some (found ++ (m.field? fields).toList) := by
  obtain ⟨name, hname⟩ := hnamed
  cases hlookup : fields.lookup name with
  | none =>
    have hfield : m.field? fields = none := by
      rw [Member.field?, hname, Option.bind_some, hlookup]
      rfl
    rw [hfield, Option.toList_none, List.append_nil]
    exact memberOf?_eq_some_iff.mpr (.extra hname (by rw [lookup_shapeOf, hlookup]; rfl))
  | some d =>
    have hfield : m.field? fields = some (name, d) := field?_eq_some_iff.mpr ⟨hname, hlookup⟩
    have hfound : found.lookup name = none := by
      have hnot := hfresh _ hfield
      rw [← isSome_lookup_iff] at hnot
      exact Option.not_isSome_iff_eq_none.mp hnot
    rw [hfield]
    exact memberOf?_eq_some_iff.mpr
      (.field hname (by rw [lookup_shapeOf, hlookup]; rfl) hfound (hvalue _ hfield))

theorem foldlM_memberOf? {fields found : List (String × Datum)} {members : List Member}
    (hnamed : ∀ m ∈ members, ∃ name, m.name? = some name)
    (hvalue : ∀ m ∈ members, ∀ f, m.field? fields = some f →
      valueOf? f.2.kind m.value.body = some f.2)
    (hnodup : (found.map (·.1) ++
      (members.filterMap (Member.field? fields)).map (·.1)).Nodup) :
    members.foldlM (memberOf? (shapeOf fields)) found =
      some (found ++ members.filterMap (Member.field? fields)) := by
  -- what has been found and what is still to be found are apart, and stay so
  induction members generalizing found with
  | nil => rw [List.foldlM_nil, List.filterMap_nil, List.append_nil]; rfl
  | cons m members ih =>
    rw [List.forall_mem_cons] at hnamed hvalue
    have hcons : (m :: members).filterMap (Member.field? fields) =
        (m.field? fields).toList ++ members.filterMap (Member.field? fields) := by
      cases hfield : m.field? fields <;> simp [hfield]
    rw [hcons, List.map_append, ← List.append_assoc, ← List.map_append] at hnodup
    have hfresh : ∀ f, m.field? fields = some f → f.1 ∉ found.map (·.1) := by
      intro f hf hmem
      have hfirst := hnodup.of_append_left
      rw [hf, List.map_append] at hfirst
      exact (List.nodup_append.mp hfirst).2.2 f.1 hmem f.1 List.mem_cons_self rfl
    rw [List.foldlM_cons, memberOf?_field? hnamed.1 hvalue.1 hfresh, hcons, ← List.append_assoc]
    exact ih hnamed.2 hvalue.2 hnodup

theorem toOption_inOrder_shapeOf {fields found : List (String × Datum)}
    (h : ∀ f ∈ fields, found.lookup f.1 = some f.2) :
    (inOrder (shapeOf fields) found).toOption = some (fields.map (·.2)) := by
  induction fields with
  | nil => rfl
  | cons f fields ih =>
    rw [List.forall_mem_cons] at h
    rw [shapeOf, List.map_cons, ← shapeOf, inOrder_cons, h.1, ih h.2]
    rfl

/-- **Members that carry fields are read as the fields**, in whatever order they stand. -/
theorem Carry.fieldsOf?_eq {fields : List (String × Datum)} {members : List Member}
    (h : Carry members fields) (hnodup : (fields.map (·.1)).Nodup)
    (hwritable : ∀ f ∈ fields, f.2.IsWritable) :
    fieldsOf? (shapeOf fields) members = some (fields.map (·.2)) := by
  have hvalue : ∀ m ∈ members, ∀ f, m.field? fields = some f →
      valueOf? f.2.kind m.value.body = some f.2 := by
    intro m hm f hf
    obtain ⟨hname, hlookup⟩ := field?_eq_some_iff.mp hf
    have hmem := mem_of_lookup hlookup
    exact ((h.spelled m hm f hmem hname).yields (hwritable f hmem)).outcome_eq
  have hfound : ((members.filterMap (Member.field? fields)).map (·.1)).Nodup := by
    rw [names_filterMap_field?, List.nodup_iff_count_le_one]
    intro name
    -- a field is named once, and another name is not found at all
    by_cases hfield : (fields.lookup name).isSome
    · obtain ⟨d, hd⟩ := Option.isSome_iff_exists.mp hfield
      rw [List.count_filter (p := fun name => (fields.lookup name).isSome) hfield]
      exact Nat.le_of_eq (h.once _ (mem_of_lookup hd))
    · have hnot : name ∉ (namesOf members).filter fun name => (fields.lookup name).isSome :=
        fun hmem => hfield (List.mem_filter.mp hmem).2
      rw [List.count_eq_zero_of_not_mem hnot]
      exact Nat.zero_le 1
  have hrun := @foldlM_memberOf? fields [] members h.named hvalue hfound
  rw [fieldsOf?, hrun, Option.bind_some, List.nil_append]
  refine toOption_inOrder_shapeOf fun f hf => lookup_of_mem hfound ?_
  -- the field is named by some member, which is found to name it
  have hname : f.1 ∈ namesOf members := by
    rw [← List.count_pos_iff, h.once f hf]
    exact Nat.one_pos
  obtain ⟨m, hm, hmname⟩ := List.mem_filterMap.mp hname
  exact List.mem_filterMap.mpr ⟨m, hm, field?_eq_some_iff.mpr ⟨hmname, lookup_of_mem hnodup hf⟩⟩

end Json

end EventJournal
