import EventJournal.Proofs.Json.Field

/-!
# Records that are read

What is read of a list or an object is put together from what each of its values is read as, apart
from the blanks, the commas and the calls: of a list the values in the order of the fields
(`EventJournal.Json.rowOf?`), of an object the values of the members whose names are fields, in the
order in which they stand (`EventJournal.Json.memberOf?`), every other member being passed over.
-/

namespace EventJournal

namespace Json

open Text (Source)

/-! ### Blanks -/

theorem readDatum_gap (kind : Kind) (gap : Gap) (rest : Source) :
    readDatum kind (ofChars gap.chars ++ rest) = readDatum kind rest := by
  cases kind <;>
    simp only [readDatum, readThrough, readQuoted, readBetween, readListOf, skipBlanks_gap]

theorem readRow_gap (shape : Shape) (isFirst : Bool) (gap : Gap) (rest : Source) :
    readRow shape isFirst (ofChars gap.chars ++ rest) = readRow shape isFirst rest := by
  cases shape with
  | nil => rw [readRow, readRow, skipBlanks_gap]
  | cons f shape => rw [readRow, readRow, skipBlanks_gap]

theorem readNamed_gap (shape : Shape) (fuel : Nat) (found : List (String × Datum)) (gap : Gap)
    (rest : Source) :
    readNamed shape fuel found (ofChars gap.chars ++ rest) = readNamed shape fuel found rest := by
  cases fuel with
  | zero => rfl
  | succ fuel => rw [readNamed, readNamed, skipBlanks_gap]

/-! ### Lists -/

/-- **The fields of a list**, its values being taken in the order of the shape. -/
def rowOf? : Shape → List Item → Option (List Datum)
  | [], [] => some []
  | [], _ :: _ => none
  | _ :: _, [] => none
  | (_, kind) :: shape, i :: items =>
    (valueOf? kind i.body).bind fun d => (rowOf? shape items).map (d :: ·)

/-- A field and those behind it, at the value of the field. -/
def readFrom (kind : Kind) (shape : Shape) (source : Source) :
    Except ReadError (List Datum × Source) := do
  let (d, rest) ← readDatum kind source
  let (ds, rest) ← readRow shape false rest
  return (d :: ds, rest)

/-- The first field of a list. -/
theorem readRow_first {cs : List Char} (h : Opens cs) (f : String × Kind) (shape : Shape)
    (rest : Source) :
    readRow (f :: shape) true (ofChars cs ++ rest) = readFrom f.2 shape (ofChars cs ++ rest) := by
  rw [readRow, skipBlanks_of_opens h]
  split
  · next heq => exact absurd heq (h.ofChars_ne_nil _)
  · next heq => exact absurd heq (h.ofChars_ne _ _)
  · rfl

/-- A field of a list behind the comma. -/
theorem readRow_comma {i : Item} (h : Opens i.body) (f : String × Kind) (shape : Shape)
    (rest : Source) :
    readRow (f :: shape) false (some ',' :: (ofChars i.chars ++ rest)) =
      readFrom f.2 shape (ofChars i.body ++ (ofChars i.trail.chars ++ rest)) := by
  rw [readRow, skipBlanks_cons (c := ',') (by decide), ofChars_item]
  split
  · next heq => cases heq
  · next heq => cases heq
  · simp only [Bool.false_eq_true, if_false, skipBlanks_gap, skipBlanks_of_opens h]
    split
    · next heq => exact absurd heq (h.ofChars_ne_nil _)
    · next heq => exact absurd heq (h.ofChars_ne _ _)
    · rfl

/-- The value of a field, and what is read behind it. -/
theorem toOption_readFrom {i : Item} (h : WellFormed i.body) (kind : Kind) (shape : Shape)
    {rest : Source} (hrest : EndsNumeral rest) :
    (readFrom kind shape (ofChars i.body ++ (ofChars i.trail.chars ++ rest))).toOption =
      (valueOf? kind i.body).bind fun d =>
        (readRow shape false rest).toOption.map fun p => (d :: p.1, p.2) := by
  rw [readFrom, (h.yields kind).bind (endsNumeral_gap i.trail hrest)]
  simp only [readRow_gap, toOption_bind]
  congr 1
  funext d
  cases readRow shape false rest <;> rfl

/-- The fields of a list behind its first value. -/
theorem readRow_behindCommas {items : List Item} (h : ∀ i ∈ items, WellFormed i.body)
    (shape : Shape) (rest : Source) :
    (readRow shape false
        (ofChars (behindCommas (items.map Item.chars)) ++ some ']' :: rest)).toOption =
      (rowOf? shape items).map (·, rest) := by
  fun_induction rowOf? shape items with
  | case1 => rfl
  | case2 i items =>
    rw [List.map_cons, ofChars_behindCommas_cons]
    rfl
  | case3 f shape => rfl
  | case4 name kind shape i items ih =>
    rw [List.forall_mem_cons] at h
    rw [List.map_cons, ofChars_behindCommas_cons, readRow_comma h.1.opens,
      toOption_readFrom h.1 _ _ (endsNumeral_behindCommas _ (by decide) rest), ih h.2]
    cases valueOf? kind i.body with
    | none => rfl
    | some d => cases rowOf? shape items <;> rfl

/-- **A list is read as its fields.** -/
theorem yields_listText (gap : Gap) {items : List Item} (h : ∀ i ∈ items, WellFormed i.body)
    (shape : Shape) : Yields (readFields shape) (listText gap items) (rowOf? shape items) := by
  intro rest _
  rw [ofChars_listText, readFields, skipBlanks_cons (c := '[') (by decide)]
  simp only [readRow_gap]
  cases items with
  | nil => cases shape <;> rfl
  | cons i items =>
    rw [List.forall_mem_cons] at h
    rw [List.map_cons, ofChars_separated_cons, ofChars_item, readRow_gap]
    cases shape with
    | nil =>
      rw [readRow, skipBlanks_of_opens h.1.opens]
      split
      · next heq => exact absurd heq (h.1.opens.ofChars_ne_nil _)
      · next heq => exact absurd heq (h.1.opens.ofChars_ne _ _)
      · rfl
    | cons f shape =>
      rw [readRow_first h.1.opens,
        toOption_readFrom h.1 _ _ (endsNumeral_behindCommas _ (by decide) rest),
        readRow_behindCommas h.2, rowOf?]
      cases valueOf? f.2 i.body with
      | none => rfl
      | some d => cases rowOf? shape items <;> rfl

/-! ### Objects -/

/-- **The fields that have been found behind one more member**, `none` if the name of the member
stands for no text, if its field has been found before or if its value is none of the field. -/
def memberOf? (shape : Shape) (found : List (String × Datum)) (m : Member) :
    Option (List (String × Datum)) :=
  m.name?.bind fun name =>
    match shape.lookup name with
    | none => some found
    | some kind =>
      if (found.lookup name).isSome then none
      else (valueOf? kind m.value.body).map fun d => found ++ [(name, d)]

/-- What is done behind a member. -/
def readBehind (shape : Shape) (fuel : Nat) (found : List (String × Datum)) (source : Source) :
    Except ReadError (List (String × Datum) × Source) :=
  match skipBlanks source with
  | [] => .error .truncated
  | some '\x7d' :: rest => .ok (found, rest)
  | some ',' :: rest => readNamed shape fuel found rest
  | _ => .error .malformed

theorem readBehind_gap (shape : Shape) (fuel : Nat) (found : List (String × Datum)) (gap : Gap)
    (source : Source) :
    readBehind shape fuel found (ofChars gap.chars ++ source) =
      readBehind shape fuel found source := by
  rw [readBehind, readBehind, skipBlanks_gap]

theorem readString_letters (letters : List Letter) (rest : Source) :
    (readString (ofChars (letters.flatMap Letter.chars) ++ some '"' :: rest)).toOption =
      ((meaning? letters).map String.ofList).map (·, rest) := by
  rw [readString, readText_letters]
  cases meaning? letters <;> rfl

/-- **One member is read**, and what is done behind it. -/
theorem toOption_readNamed {m : Member} (h : WellFormed m.value.body) (shape : Shape)
    (fuel : Nat) (found : List (String × Datum)) {after : Source} (hafter : EndsNumeral after) :
    (readNamed shape (fuel + 1) found (ofChars m.chars ++ after)).toOption =
      (memberOf? shape found m).bind fun found => (readBehind shape fuel found after).toOption := by
  rw [ofChars_member, readNamed, skipBlanks_gap, skipBlanks_cons (c := '"') (by decide), memberOf?,
    Member.name?]
  simp only [toOption_bind, readString_letters]
  cases meaning? m.name with
  | none => rfl
  | some cs =>
    simp only [Option.map_some, Option.bind_some]
    -- a member of another name is passed over, and one that names a field is read as the field
    cases shape.lookup (String.ofList cs) with
    | none =>
      have hskip := skipValue_item h.passes (callBound (ofChars m.value.lead.chars ++
        (ofChars m.value.body ++ (ofChars m.value.trail.chars ++ after))))
        (by simp [callBound]; omega) hafter
      simp only [readColon_gap, bind_ok, ofChars_item, skipValue_gap, hskip, Option.bind_some]
      rw [← readBehind_gap shape fuel found m.value.trail after]
      rfl
    | some kind =>
      simp only [readColon_gap, bind_ok, ofChars_item, readDatum_gap]
      split
      · rfl
      · rw [(h.yields kind).bind (endsNumeral_gap m.value.trail hafter), Option.bind_map]
        congr 1
        funext d
        rw [Function.comp_apply,
          ← readBehind_gap shape fuel (found ++ [(String.ofList cs, d)]) m.value.trail after]
        rfl

/-- **The members of an object are read one after another.** -/
theorem readNamed_members {m : Member} {members : List Member}
    (h : ∀ m' ∈ m :: members, WellFormed m'.value.body) (shape : Shape) {fuel : Nat}
    (hfuel : members.length < fuel) (found : List (String × Datum)) (rest : Source) :
    (readNamed shape fuel found (ofChars m.chars ++
        (ofChars (behindCommas (members.map Member.chars)) ++ some '\x7d' :: rest))).toOption =
      ((m :: members).foldlM (memberOf? shape) found).map (·, rest) := by
  induction members generalizing m fuel found with
  | nil =>
    obtain ⟨fuel, rfl⟩ := Nat.exists_eq_add_one_of_ne_zero (n := fuel) (by omega)
    rw [List.forall_mem_cons] at h
    rw [toOption_readNamed h.1 _ _ _ (endsNumeral_behindCommas _ (by decide) rest),
      List.foldlM_cons]
    cases memberOf? shape found m <;> rfl
  | cons m' members ih =>
    rw [List.length_cons] at hfuel
    obtain ⟨fuel, rfl⟩ := Nat.exists_eq_add_one_of_ne_zero (n := fuel) (by omega)
    rw [List.forall_mem_cons] at h
    rw [toOption_readNamed h.1 _ _ _ (endsNumeral_behindCommas _ (by decide) rest),
      List.foldlM_cons]
    cases memberOf? shape found m with
    | none => rfl
    | some found' =>
      have hmore := @ih m' h.2 fuel (by omega) found'
      rw [Option.bind_some, List.map_cons, ofChars_behindCommas_cons, readBehind,
        skipBlanks_cons (c := ',') (by decide)]
      exact hmore

/-- **The fields of an object**, in the order of the shape. -/
def fieldsOf? (shape : Shape) (members : List Member) : Option (List Datum) :=
  (members.foldlM (memberOf? shape) []).bind fun found => (inOrder shape found).toOption

/-- The fields that were found are put in order. -/
theorem toOption_inOrder (shape : Shape) {found? : Option (List (String × Datum))} {rest : Source}
    {x : Except ReadError (List (String × Datum) × Source)}
    (h : x.toOption = found?.map (·, rest)) :
    (do
      let (found, rest) ← x
      return (← inOrder shape found, rest)).toOption =
      (found?.bind fun found => (inOrder shape found).toOption).map (·, rest) := by
  rw [toOption_bind, h]
  cases found? with
  | none => rfl
  | some found =>
    rw [Option.map_some, Option.bind_some, Option.bind_some]
    dsimp only
    cases inOrder shape found <;> rfl

/-- **An object is read as its fields.** -/
theorem yields_objectText (gap : Gap) {members : List Member}
    (h : ∀ m ∈ members, WellFormed m.value.body) (shape : Shape) :
    Yields (readFields shape) (objectText gap members) (fieldsOf? shape members) := by
  intro rest _
  rw [ofChars_objectText, readFields, skipBlanks_cons (c := '\x7b') (by decide), fieldsOf?]
  simp only [skipBlanks_gap]
  cases members with
  | nil => exact toOption_inOrder shape (x := .ok ([], rest)) rfl
  | cons m members =>
    -- there are calls enough, for each member but the first has a comma before it
    have hlength := length_le_behindCommas (members.map Member.chars)
    rw [List.length_map] at hlength
    have hnamed := fun fuel hfuel => @readNamed_members _ _ h shape fuel hfuel [] rest
    rw [List.map_cons, ofChars_separated_cons]
    simp only [ofChars_member, readNamed_gap] at hnamed
    rw [ofChars_member, skipBlanks_gap, skipBlanks_cons (c := '"') (by decide)]
    exact toOption_inOrder shape (hnamed _ (by simp [callBound]; omega))

/-! ### The record of a text -/

theorem readFields_gap (shape : Shape) (gap : Gap) (rest : Source) :
    readFields shape (ofChars gap.chars ++ rest) = readFields shape rest := by
  rw [readFields, readFields, skipBlanks_gap]

theorem ofString_ofList (cs : List Char) : Source.ofString (String.ofList cs) = ofChars cs := by
  rw [Source.ofString, String.toList_ofList, ofChars]

/-- Nothing but blanks stands behind a value that was read. -/
theorem complete_gap {α : Type} (v : α) (gap : Gap) :
    complete (.ok (v, ofChars gap.chars)) = .ok v := by
  have hblanks := skipBlanks_gap gap []
  rw [List.append_nil] at hblanks
  rw [complete, hblanks]
  rfl

/-- **A record is read of the whole text**, the blanks around its value apart. -/
theorem toOption_decode {ρ : Type} [Recorded ρ] {i : Item} {data? : Option (List Datum)}
    (h : Yields (readFields (Recorded.shape ρ)) i.body data?) :
    (decode (String.ofList i.chars) : Except ReadError ρ).toOption =
      data?.bind Recorded.ofData? := by
  have hrest : EndsNumeral (ofChars i.trail.chars) := by
    have hgap := endsNumeral_gap i.trail endsNumeral_nil
    rwa [List.append_nil] at hgap
  have hitem := ofChars_item i []
  rw [List.append_nil, List.append_nil] at hitem
  rw [decode, ofString_ofList, hitem, decodeSource, readFields_gap]
  cases data? with
  | none =>
    obtain ⟨e, he⟩ := h.eq_error hrest
    rw [he]
    rfl
  | some data =>
    rw [h.eq_ok hrest, complete_gap, bind_ok, Option.bind_some]
    cases (Recorded.ofData? data : Option ρ) <;> rfl

end Json

end EventJournal
