import EventJournal.Form
import EventJournal.Proofs.Json.Members

/-!
# The JSON forms of the records

Each of the six records comes back from the text that is written of it, from every object that has
its fields in some order among any other members, and from every list of its fields in their order;
a text that leaves a field out, that has one twice or that gives one no value is read as no record
(`EventJournal.Json.Interchangeable`).

| Text | Read as the record by | Refused by |
|---|---|---|
| an object | `EventJournal.Json.Carry.fieldsOf?_eq` | `EventJournal.Json.count_of_fieldsOf?` |
| a list | `EventJournal.Json.rowOf?_of_spelled` | `EventJournal.Json.length_of_rowOf?` |
| another value | | `EventJournal.Json.yields_fields_none` |

The text that is written is an object with the fields in their order, so that it is one of those
that are read (`EventJournal.Json.carry_of_writes`). That a type of records is made of its fields is
all that is used of it (`EventJournal.Json.LawfulRecorded`).
-/

namespace EventJournal

namespace Json

/-! ### The object that is written -/

/-- The member that is written of a field, among others. -/
def Writes (f : String × Datum) (m : Member) : Prop :=
  m.name? = some f.1 ∧ m.value.body = f.2.render

theorem exists_writes (f : String × Datum) :
    ∃ m, Writes f m ∧ m.chars = quote f.1 ++ ':' :: f.2.render := by
  obtain ⟨letters, hquote, hmeaning⟩ := exists_quotation_quote f.1
  refine ⟨⟨Gap.none, letters, Gap.none, Item.compact f.2.render⟩, ⟨?_, rfl⟩, ?_⟩
  · rw [Member.name?, hmeaning, Option.map_some, String.ofList_toList]
  · simp [Member.chars, Item.chars_compact, hquote]

/-- **What is written of fields is the members of an object**, one for each field. -/
theorem exists_members (fields : List (String × Datum)) :
    ∃ members, List.Forall₂ Writes fields members ∧
      separated (members.map Member.chars) = renderFields fields := by
  induction fields with
  | nil => exact ⟨[], .nil, rfl⟩
  | cons f fields ih =>
    obtain ⟨m, hm, hchars⟩ := exists_writes f
    obtain ⟨members, hmembers, hrender⟩ := ih
    refine ⟨m :: members, .cons hm hmembers, ?_⟩
    rw [renderFields, ← hrender, List.map_cons, separated_cons, hchars]
    cases hmembers with
    | nil => simp [separated, behindCommas]
    | cons =>
      rw [List.map_cons, behindCommas_cons]
      simp

theorem namesOf_of_writes {fields : List (String × Datum)} {members : List Member}
    (h : List.Forall₂ Writes fields members) : namesOf members = fields.map (·.1) := by
  induction h with
  | nil => rfl
  | cons hm _ ih => rw [namesOf, List.filterMap_cons, hm.1, ← namesOf, ih, List.map_cons]

theorem exists_of_writes {fields : List (String × Datum)} {members : List Member}
    (h : List.Forall₂ Writes fields members) : ∀ m ∈ members, ∃ f ∈ fields, Writes f m := by
  induction h with
  | nil => exact nofun
  | @cons f m fields members hm _ ih =>
    rw [List.forall_mem_cons]
    refine ⟨⟨f, List.mem_cons_self, hm⟩, fun m' hm' => ?_⟩
    obtain ⟨f', hf', hwrites⟩ := ih m' hm'
    exact ⟨f', List.mem_cons_of_mem f hf', hwrites⟩

/-- **The members that are written of fields carry them.** -/
theorem carry_of_writes {fields : List (String × Datum)} {members : List Member}
    (h : List.Forall₂ Writes fields members) (hnodup : (fields.map (·.1)).Nodup) :
    Carry members fields := by
  have hmember := exists_of_writes h
  refine ⟨fun m hm => ?_, fun m hm => ?_, fun f hf => ?_, fun m hm f hf hname => ?_⟩
  · obtain ⟨f, -, hname, -⟩ := hmember m hm
    exact ⟨f.1, hname⟩
  · obtain ⟨f, -, -, hbody⟩ := hmember m hm
    rw [hbody]
    exact f.2.spelled_render.wellFormed
  · rw [namesOf_of_writes h]
    exact List.count_eq_one_of_mem hnodup (List.mem_map_of_mem hf)
  · obtain ⟨f', hf', hname', hbody⟩ := hmember m hm
    -- two fields of one name are one
    obtain rfl : f' = f :=
      List.inj_on_of_nodup_map hnodup hf' hf (Option.some.inj (hname'.symm.trans hname))
    rw [hbody]
    exact f'.2.spelled_render

/-! ### Records -/

section Records

variable {ρ : Type} [Recorded ρ]

/-- The fields of a record. -/
def fieldsOf (r : ρ) : List (String × Datum) :=
  ((Recorded.shape ρ).map (·.1)).zip (Recorded.toData r)

/-- **A record that can be written**: each of its fields can. -/
def IsWritable (r : ρ) : Prop := ∀ f ∈ fieldsOf r, f.2.IsWritable

instance : DecidablePred (@IsWritable ρ _) := fun r =>
  inferInstanceAs (Decidable (∀ f ∈ fieldsOf r, f.2.IsWritable))

/-- **A type of records that are made of their fields.** -/
class LawfulRecorded (ρ : Type) [Recorded ρ] : Prop where
  /-- No two fields have one name. -/
  nodup : ((Recorded.shape ρ).map (·.1)).Nodup
  /-- A record has one value for each field, of the kind of the field. -/
  shapeOf_fieldsOf : ∀ r : ρ, shapeOf (fieldsOf r) = Recorded.shape ρ
  /-- It has no other values. -/
  map_snd_fieldsOf : ∀ r : ρ, (fieldsOf r).map (·.2) = Recorded.toData r
  /-- A record is made of its values. -/
  ofData?_toData : ∀ r : ρ, Recorded.ofData? (Recorded.toData r) = some r

/-- **The records of a type can be told by their JSON text.** A text may have blanks wherever JSON
allows them, and any characters of its quoted texts may be escaped. -/
structure Interchangeable (ρ : Type) [Recorded ρ] : Prop where
  /-- The text that is written of a record is read as the record. -/
  roundTrip : ∀ r : ρ, IsWritable r → decode (String.ofList (encode r)) = .ok r
  /-- An object with the fields of a record in any order, among members of other names and any
  values, is read as the record. -/
  ofObject : ∀ (r : ρ) (lead gap trail : Gap) (members : List Member), IsWritable r →
    Carry members (fieldsOf r) →
      decode (String.ofList (Item.mk lead (objectText gap members) trail).chars) = .ok r
  /-- A list of the fields of a record in their order is read as the record. -/
  ofList : ∀ (r : ρ) (lead gap trail : Gap) (items : List Item), IsWritable r →
    List.Forall₂ (fun f i => f.2.Spelled i.body) (fieldsOf r) items →
      decode (String.ofList (Item.mk lead (listText gap items) trail).chars) = .ok r
  /-- An object that names a field not once, or gives it no value, is read as no record. -/
  refusesObject : ∀ (lead gap trail : Gap) (members : List Member),
    (∀ m ∈ members, WellFormed m.value.body) → ∀ f ∈ Recorded.shape ρ,
      ((namesOf members).count f.1 ≠ 1 ∨
        ∃ m ∈ members, m.name? = some f.1 ∧ m.value.body = nullText) → ∀ r : ρ,
          decode (String.ofList (Item.mk lead (objectText gap members) trail).chars) ≠ .ok r
  /-- A list of fewer or more values than there are fields, or that has no value at one, is read as
  no record. -/
  refusesList : ∀ (lead gap trail : Gap) (items : List Item),
    (∀ i ∈ items, WellFormed i.body) →
      (items.length ≠ (Recorded.shape ρ).length ∨ ∃ i ∈ items, i.body = nullText) → ∀ r : ρ,
        decode (String.ofList (Item.mk lead (listText gap items) trail).chars) ≠ .ok r
  /-- A value that is no object and no list is read as no record. -/
  refusesOther : ∀ (lead trail : Gap) (cs : List Char), WellFormed cs →
    (∀ gap members, cs ≠ objectText gap members) → (∀ gap items, cs ≠ listText gap items) →
      ∀ r : ρ, decode (String.ofList (Item.mk lead cs trail).chars) ≠ .ok r

/-- A record that is read of a text is made of what the text is read as. -/
theorem decode_eq_ok {i : Item} {data? : Option (List Datum)}
    (h : Yields (readFields (Recorded.shape ρ)) i.body data?) (r : ρ) :
    decode (String.ofList i.chars) = .ok r ↔ data?.bind Recorded.ofData? = some r := by
  rw [← toOption_decode h]
  cases (decode (String.ofList i.chars) : Except ReadError ρ) <;> simp [Except.toOption]

theorem yields_fields_of_opens {cs : List Char} (h : Opens cs) (hlist : ∀ ds, cs ≠ '[' :: ds)
    (hobject : ∀ ds, cs ≠ '\x7b' :: ds) (shape : Shape) : Yields (readFields shape) cs none := by
  intro rest _
  rw [readFields, skipBlanks_of_opens h]
  split
  · next heq =>
    obtain ⟨ds, hds⟩ := h.eq_cons heq
    exact absurd hds (hlist ds)
  · next heq =>
    obtain ⟨ds, hds⟩ := h.eq_cons heq
    exact absurd hds (hobject ds)
  · rfl

/-- A value that is no object and no list has no fields. -/
theorem yields_fields_none {cs : List Char} (h : WellFormed cs)
    (hobject : ∀ gap members, cs ≠ objectText gap members)
    (hlist : ∀ gap items, cs ≠ listText gap items) (shape : Shape) :
    Yields (readFields shape) cs none := by
  have hopens := h.opens
  cases h with
  | list gap hitems => exact absurd rfl (hlist gap _)
  | object gap hmembers => exact absurd rfl (hobject gap _)
  | word hmem =>
    exact yields_fields_of_opens hopens (ne_of_mem_words hmem (by decide))
      (ne_of_mem_words hmem (by decide)) shape
  | numeral f =>
    exact yields_fields_of_opens hopens (f.chars_ne (by decide)) (f.chars_ne (by decide)) shape
  | quoted letters => exact yields_fields_of_opens hopens nofun nofun shape

section Lawful

variable [LawfulRecorded ρ]

theorem nodup_fieldsOf (r : ρ) : ((fieldsOf r).map (·.1)).Nodup := by
  rw [← names_shapeOf, LawfulRecorded.shapeOf_fieldsOf]
  exact LawfulRecorded.nodup

theorem decode_object (r : ρ) (lead gap trail : Gap) {members : List Member}
    (hwritable : IsWritable r) (h : Carry members (fieldsOf r)) :
    decode (String.ofList (Item.mk lead (objectText gap members) trail).chars) = .ok r := by
  have hfields := h.fieldsOf?_eq (nodup_fieldsOf r) hwritable
  rw [LawfulRecorded.shapeOf_fieldsOf, LawfulRecorded.map_snd_fieldsOf] at hfields
  rw [decode_eq_ok (yields_objectText gap h.wellFormed _), hfields]
  exact LawfulRecorded.ofData?_toData r

/-- **The records of a lawful type can be told by their JSON text.** -/
theorem interchangeable : Interchangeable ρ where
  roundTrip r hwritable := by
    obtain ⟨members, hwrites, hrender⟩ := exists_members (fieldsOf r)
    have hdecode := decode_object r Gap.none Gap.none Gap.none hwritable
      (carry_of_writes hwrites (nodup_fieldsOf r))
    rw [Item.chars, objectText, hrender] at hdecode
    simpa [encode, fieldsOf] using hdecode
  ofObject r lead gap trail members hwritable h := decode_object r lead gap trail hwritable h
  ofList r lead gap trail items hwritable h := by
    have hrow := rowOf?_of_spelled hwritable h
    rw [LawfulRecorded.shapeOf_fieldsOf, LawfulRecorded.map_snd_fieldsOf] at hrow
    rw [decode_eq_ok (yields_listText gap (wellFormed_of_spelled h) _), hrow]
    exact LawfulRecorded.ofData?_toData r
  refusesObject lead gap trail members h f hf hfault r hdecode := by
    rw [decode_eq_ok (yields_objectText gap h _)] at hdecode
    obtain ⟨data, hdata, -⟩ := Option.bind_eq_some_iff.mp hdecode
    obtain ⟨honce, hnull⟩ := count_of_fieldsOf? hdata hf
    rcases hfault with hcount | ⟨m, hm, hname, hbody⟩
    · exact hcount honce
    · exact hnull m hm hname hbody
  refusesList lead gap trail items h hfault r hdecode := by
    rw [decode_eq_ok (yields_listText gap h _)] at hdecode
    obtain ⟨data, hdata, -⟩ := Option.bind_eq_some_iff.mp hdecode
    obtain ⟨hlength, hnull⟩ := length_of_rowOf? hdata
    rcases hfault with hcount | ⟨i, hi, hbody⟩
    · exact hcount hlength
    · exact hnull i hi hbody
  refusesOther lead trail cs h hobject hlist r hdecode := by
    rw [decode_eq_ok (yields_fields_none h hobject hlist _)] at hdecode
    cases hdecode

end Lawful

end Records

/-! ### The six records -/

instance : LawfulRecorded Draft :=
  ⟨by decide, fun _ => rfl, fun _ => rfl, fun _ => rfl⟩

instance : LawfulRecorded Event :=
  ⟨by decide, fun _ => rfl, fun _ => rfl, fun _ => rfl⟩

instance : LawfulRecorded Head :=
  ⟨by decide, fun _ => rfl, fun _ => rfl, fun _ => rfl⟩

instance : LawfulRecorded Snapshot :=
  ⟨by decide, fun _ => rfl, fun _ => rfl, fun _ => rfl⟩

instance : LawfulRecorded Counter :=
  ⟨by decide, fun _ => rfl, fun _ => rfl, fun _ => rfl⟩

instance : LawfulRecorded Checkpoint :=
  ⟨by decide, fun _ => rfl, fun _ => rfl, fun _ => rfl⟩

/-- **Each of the six records can be told by its JSON text.** -/
theorem records_interchangeable :
    Interchangeable Draft ∧ Interchangeable Event ∧ Interchangeable Head ∧
      Interchangeable Snapshot ∧ Interchangeable Counter ∧ Interchangeable Checkpoint :=
  ⟨interchangeable, interchangeable, interchangeable, interchangeable, interchangeable,
    interchangeable⟩

/-- The members of a counter, the value before the name, behind a member that is no field. -/
def looseMembers : List Member :=
  [⟨Gap.none, ['w', 'h', 'y'].pmap Letter.plain (by simp [IsPlain]), Gap.none,
      Item.compact (listText Gap.none [Item.compact nullText,
        Item.compact (objectText Gap.none [])])⟩,
    ⟨Gap.none, ['v', 'a', 'l', 'u', 'e'].pmap Letter.plain (by simp [IsPlain]), Gap.none,
      Item.compact (Text.decimal 7)⟩,
    ⟨Gap.none, ['n', 'a', 'm', 'e'].pmap Letter.plain (by simp [IsPlain]), Gap.none,
      Item.compact (quotation (['j', 'o', 'b', 's'].pmap Letter.plain (by simp [IsPlain])))⟩]

theorem carry_looseMembers : Carry looseMembers [("name", .text "jobs"), ("value", .word 7)] := by
  refine ⟨?_, ?_, by decide, ?_⟩ <;> simp only [looseMembers, List.forall_mem_cons]
  · exact ⟨⟨_, rfl⟩, ⟨_, rfl⟩, ⟨_, rfl⟩, nofun⟩
  · refine ⟨.list _ ?_, wellFormed_decimal 7, .quoted _, nofun⟩
    simp only [List.forall_mem_cons]
    exact ⟨.word (by decide), .object _ nofun, nofun⟩
  · refine ⟨⟨?_, ?_, nofun⟩, ⟨?_, ?_, nofun⟩, ⟨?_, ?_, nofun⟩, nofun⟩ <;> intro hname
    · exact absurd hname (by decide)
    · exact absurd hname (by decide)
    · exact absurd hname (by decide)
    · exact .word 7
    · exact .text rfl
    · exact absurd hname (by decide)

/-- A counter is read of a text whose members are in another order than its fields, among others
that are nested. -/
theorem records_interchangeable_loose :
    decode "\x7b\"why\":[null,\x7b\x7d],\"value\":7,\"name\":\"jobs\"\x7d" =
      .ok (⟨"jobs", 7⟩ : Counter) := by
  have hwritable : IsWritable (⟨"jobs", 7⟩ : Counter) := by decide
  exact records_interchangeable.2.2.2.2.1.ofObject ⟨"jobs", 7⟩ Gap.none Gap.none Gap.none
    looseMembers hwritable carry_looseMembers

end Json

end EventJournal
