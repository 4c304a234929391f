import EventJournal.Json.Parser
import EventJournal.Proofs.Json.Quotation
import EventJournal.Proofs.Text.Utf8

/-!
# Values that come back from their text

The compact text of a value is read as the value (`EventJournal.Json.Legible.parseBytes_render`), if
the value is *legible*: its numbers are whole and fit into sixty-four bits, signed or not, it is
nested no deeper than the reader goes, and the members of its objects ascend by name.

That one value is read back is said for every source that it stands at the front of
(`EventJournal.Json.Reads`), and so is what stands behind the first of several items or members.
The bound on the number of calls is kept with the length of the text: a call that reads a
character leaves twice the length of the rest.
-/

namespace EventJournal

namespace Json

open Text (Source)

/-- **A value that can be read back**, nested to a depth at most. -/
inductive Legible : (depth : Nat) → Json → Prop
  /-- The value `null`. -/
  | null {depth} : Legible depth .null
  /-- A truth value. -/
  | bool {depth} (value : Bool) : Legible depth (.bool value)
  /-- A whole number of sixty-four bits, signed or not. -/
  | integer {depth n} : -0x8000000000000000 ≤ n → n ≤ 0xFFFFFFFFFFFFFFFF →
    Legible depth (.integer n)
  /-- A text. -/
  | string {depth} (value : String) : Legible depth (.string value)
  /-- A list of values. -/
  | array {depth items} : (∀ v ∈ items, Legible depth v) → Legible (depth + 1) (.array items)
  /-- Named values, ascending by name. -/
  | object {depth members} : members.Pairwise (fun m m' => m.1 < m'.1) →
    (∀ m ∈ members, Legible depth m.2) → Legible (depth + 1) (.object members)

/-! ### The first character -/

theorem Legible.opens {depth : Nat} {v : Json} (h : Legible depth v) : Opens v.render := by
  cases h with
  | bool value => cases value <;> exact ⟨_, _, rfl, by decide⟩
  | integer => exact opens_renderInteger _
  | _ => exact ⟨_, _, rfl, by decide⟩

/-! ### Reading one value -/

/-- **A value that is read back** wherever it stands, nested to a depth at most. -/
def Reads (depth : Nat) (v : Json) : Prop :=
  ∀ fuel rest, 2 * v.render.length ≤ fuel → EndsNumeral rest →
    readValue fuel depth (ofChars v.render ++ rest) = .ok (v, rest)

/-- There is always a first call to read a value. -/
theorem reads_of_succ {depth : Nat} {v : Json} (hrender : v.render ≠ [])
    (h : ∀ fuel rest, 2 * v.render.length ≤ fuel + 1 → EndsNumeral rest →
      readValue (fuel + 1) depth (ofChars v.render ++ rest) = .ok (v, rest)) : Reads depth v := by
  intro fuel rest hfuel hrest
  have hpos := List.length_pos_iff.mpr hrender
  obtain ⟨fuel, rfl⟩ := Nat.exists_eq_add_one_of_ne_zero (n := fuel) (by omega)
  exact h fuel rest hfuel hrest

theorem reads_null (depth : Nat) : Reads depth .null := by
  refine reads_of_succ (by simp [render]) fun fuel rest _ _ => ?_
  rw [render, ofChars_cons, List.cons_append, readValue, skipBlanks_cons (by decide)]
  rfl

theorem reads_bool (b : Bool) (depth : Nat) : Reads depth (.bool b) := by
  refine reads_of_succ (by cases b <;> simp [render]) fun fuel rest _ _ => ?_
  cases b <;>
    rw [render, ofChars_cons, List.cons_append, readValue, skipBlanks_cons (by decide)] <;> rfl

theorem readValue_of_isDigit {c : Char} (h : c.isDigit) {rest rest' : Source} {n : Int}
    (hread : readUnsigned false (some c :: rest) = .ok (.integer n, rest')) (fuel depth : Nat) :
    readValue (fuel + 1) depth (some c :: rest) = .ok (integer n, rest') := by
  rw [readValue, skipBlanks_cons (solid_of_isDigit h)]
  split
  case h_9 =>
    next heq =>
    cases heq
    rw [if_pos h, hread]
    rfl
  all_goals simp_all

theorem reads_integer {n : Int} (hlow : -0x8000000000000000 ≤ n)
    (hhigh : n ≤ 0xFFFFFFFFFFFFFFFF) (depth : Nat) : Reads depth (.integer n) := by
  refine reads_of_succ (opens_renderInteger n).ne_nil fun fuel rest _ hrest => ?_
  rw [render]
  have hword : n.natAbs ≤ Text.maxWord := by
    rw [Text.maxWord]
    omega
  by_cases hneg : n < 0
  · have hread := readUnsigned_decimal true hword hrest
    rw [wholeNumber_of_neg hneg hlow] at hread
    rw [renderInteger, if_pos hneg, List.cons_append, List.nil_append, ofChars_cons,
      List.cons_append, readValue, skipBlanks_cons (c := '-') (by decide)]
    simp only [hread, bind_ok]
    rfl
  · obtain ⟨c, cs, heq, hdigit⟩ := exists_decimal_eq n.natAbs
    have hread := readUnsigned_decimal false hword hrest
    rw [wholeNumber_of_nonneg (Int.not_lt.mp hneg)] at hread
    rw [renderInteger, if_neg hneg, List.nil_append]
    rw [heq, ofChars_cons, List.cons_append] at hread ⊢
    exact readValue_of_isDigit hdigit hread fuel depth

theorem reads_string (s : String) (depth : Nat) : Reads depth (.string s) := by
  refine reads_of_succ (by simp [render, quote]) fun fuel rest _ _ => ?_
  rw [render, quote, List.cons_append, ofChars_cons, List.cons_append, readValue,
    skipBlanks_cons (c := '"') (by decide)]
  simp only [readString_quote, bind_ok]
  rfl

/-! ### Reading several -/

/-- What stands behind the first item of a list. -/
def moreItems : List Json → List Char
  | [] => []
  | v :: items => ',' :: renderItems (v :: items)

theorem renderItems_cons (v : Json) (items : List Json) :
    renderItems (v :: items) = v.render ++ moreItems items := by
  cases items <;> simp [renderItems, moreItems]

theorem endsNumeral_moreItems (items : List Json) (rest : Source) :
    EndsNumeral (ofChars (moreItems items) ++ some ']' :: rest) := by
  cases items <;> exact endsNumeral_cons (by decide) _

theorem readMoreItems_render {depth : Nat} {items : List Json} (h : ∀ v ∈ items, Reads depth v)
    {fuel : Nat} (hfuel : 2 * (moreItems items).length < fuel) (rest : Source) :
    readMoreItems fuel depth (ofChars (moreItems items) ++ some ']' :: rest) =
      .ok (items, rest) := by
  induction items generalizing fuel with
  | nil =>
    obtain ⟨fuel, rfl⟩ := Nat.exists_eq_add_one_of_ne_zero (n := fuel) (by omega)
    rw [moreItems, ofChars_nil, List.nil_append, readMoreItems,
      skipBlanks_cons (c := ']') (by decide)]
    rfl
  | cons v items ih =>
    rw [List.forall_mem_cons] at h
    rw [moreItems, renderItems_cons] at hfuel ⊢
    rw [List.length_cons, List.length_append] at hfuel
    obtain ⟨fuel, rfl⟩ := Nat.exists_eq_add_one_of_ne_zero (n := fuel) (by omega)
    have hv := h.1 fuel _ (by omega) (endsNumeral_moreItems items rest)
    have hitems := @ih h.2 fuel (by omega)
    rw [ofChars_cons, ofChars_append, List.cons_append, List.append_assoc, readMoreItems,
      skipBlanks_cons (c := ',') (by decide)]
    simp only [hv, hitems, bind_ok]
    rfl

theorem readFirstItem_render {depth : Nat} {items : List Json} (h : ∀ v ∈ items, Reads depth v)
    (hopens : ∀ v ∈ items, Opens v.render) {fuel : Nat}
    (hfuel : 2 * (renderItems items).length + 1 < fuel) (rest : Source) :
    readFirstItem fuel depth (ofChars (renderItems items) ++ some ']' :: rest) =
      .ok (items, rest) := by
  obtain ⟨fuel, rfl⟩ := Nat.exists_eq_add_one_of_ne_zero (n := fuel) (by omega)
  cases items with
  | nil =>
    rw [renderItems, ofChars_nil, List.nil_append, readFirstItem,
      skipBlanks_cons (c := ']') (by decide)]
    rfl
  | cons v items =>
    rw [List.forall_mem_cons] at h hopens
    rw [renderItems_cons, List.length_append] at hfuel
    have hv := h.1 fuel _ (by omega) (endsNumeral_moreItems items rest)
    have hitems := @readMoreItems_render _ _ h.2 fuel (by omega) rest
    obtain ⟨c, cs, hrender, hsolid, hc⟩ := hopens.1
    rw [renderItems_cons, ofChars_append, List.append_assoc]
    rw [hrender, ofChars_cons, List.cons_append] at hv ⊢
    rw [readFirstItem, skipBlanks_cons hsolid]
    split
    · next heq => cases heq
    · next heq =>
      cases heq
      exact absurd rfl hc
    · simp only [hv, hitems, bind_ok]
      rfl

theorem reads_array {depth : Nat} {items : List Json} (h : ∀ v ∈ items, Reads depth v)
    (hopens : ∀ v ∈ items, Opens v.render) : Reads (depth + 1) (.array items) := by
  refine reads_of_succ (by simp [render]) fun fuel rest hfuel _ => ?_
  rw [render, List.cons_append] at hfuel ⊢
  rw [List.length_cons, List.length_append] at hfuel
  have hitems := @readFirstItem_render _ _ h hopens fuel (by simp at hfuel; omega) rest
  rw [ofChars_cons, ofChars_append, List.cons_append, List.append_assoc, readValue,
    skipBlanks_cons (c := '[') (by decide)]
  simp only [ofChars_cons, ofChars_nil, List.cons_append, List.nil_append, hitems, bind_ok]
  rfl

/-! ### Reading the members of an object -/

/-- What stands behind the first member of an object. -/
def moreMembers : List (String × Json) → List Char
  | [] => []
  | m :: members => ',' :: renderMembers (m :: members)

theorem renderMembers_cons (name : String) (v : Json) (members : List (String × Json)) :
    renderMembers ((name, v) :: members) =
      quote name ++ ':' :: v.render ++ moreMembers members := by
  cases members <;> simp [renderMembers, moreMembers]

theorem ofChars_renderMembers (name : String) (v : Json) (members : List (String × Json))
    (rest : Source) :
    ofChars (renderMembers ((name, v) :: members)) ++ rest =
      some '"' :: (ofChars (name.toList.flatMap escapeChar ++ ['"']) ++ some ':' ::
        (ofChars v.render ++ (ofChars (moreMembers members) ++ rest))) := by
  rw [renderMembers_cons, quote]
  simp only [ofChars_append, ofChars_cons, List.cons_append, List.append_assoc]

theorem endsNumeral_moreMembers (members : List (String × Json)) (rest : Source) :
    EndsNumeral (ofChars (moreMembers members) ++ some '\x7d' :: rest) := by
  cases members <;> exact endsNumeral_cons (by decide) _

/-- The first of several members, if those behind it are read back. -/
theorem readMember_render {depth : Nat} {name : String} {v : Json}
    {members : List (String × Json)} (hv : Reads depth v) {fuel : Nat} {rest : Source}
    (hfuel : 2 * v.render.length < fuel)
    (hmore : ∀ k, fuel = k + 1 →
      readMoreMembers k depth (ofChars (moreMembers members) ++ some '\x7d' :: rest) =
        .ok (members, rest)) :
    readMember fuel depth
        (ofChars (renderMembers ((name, v) :: members)) ++ some '\x7d' :: rest) =
      .ok ((name, v) :: members, rest) := by
  obtain ⟨fuel, rfl⟩ := Nat.exists_eq_add_one_of_ne_zero (n := fuel) (by omega)
  have hread := hv fuel _ (by omega) (endsNumeral_moreMembers members rest)
  have hmore := hmore fuel rfl
  have hcolon : ∀ rest, readColon (some ':' :: rest) = .ok rest := fun _ => rfl
  rw [ofChars_renderMembers, readMember, skipBlanks_cons (c := '"') (by decide)]
  simp only [readString_quote, hcolon, hread, hmore, bind_ok]
  rfl

theorem readMoreMembers_render {depth : Nat} {members : List (String × Json)}
    (h : ∀ m ∈ members, Reads depth m.2) {fuel : Nat}
    (hfuel : 2 * (moreMembers members).length < fuel) (rest : Source) :
    readMoreMembers fuel depth (ofChars (moreMembers members) ++ some '\x7d' :: rest) =
      .ok (members, rest) := by
  induction members generalizing fuel with
  | nil =>
    obtain ⟨fuel, rfl⟩ := Nat.exists_eq_add_one_of_ne_zero (n := fuel) (by omega)
    rw [moreMembers, ofChars_nil, List.nil_append, readMoreMembers,
      skipBlanks_cons (c := '\x7d') (by decide)]
    rfl
  | cons m members ih =>
    obtain ⟨name, v⟩ := m
    rw [List.forall_mem_cons] at h
    rw [moreMembers, renderMembers_cons] at hfuel
    simp only [List.length_cons, List.length_append] at hfuel
    obtain ⟨fuel, rfl⟩ := Nat.exists_eq_add_one_of_ne_zero (n := fuel) (by omega)
    have hmember := @readMember_render _ name v _ h.1 fuel _ (by omega)
      fun k hk => @ih h.2 k (by omega)
    rw [moreMembers, ofChars_cons, List.cons_append, readMoreMembers,
      skipBlanks_cons (c := ',') (by decide)]
    exact hmember

theorem readFirstMember_render {depth : Nat} {members : List (String × Json)}
    (h : ∀ m ∈ members, Reads depth m.2) {fuel : Nat}
    (hfuel : 2 * (renderMembers members).length + 1 < fuel) (rest : Source) :
    readFirstMember fuel depth (ofChars (renderMembers members) ++ some '\x7d' :: rest) =
      .ok (members, rest) := by
  obtain ⟨fuel, rfl⟩ := Nat.exists_eq_add_one_of_ne_zero (n := fuel) (by omega)
  cases members with
  | nil =>
    rw [renderMembers, ofChars_nil, List.nil_append, readFirstMember,
      skipBlanks_cons (c := '\x7d') (by decide)]
    rfl
  | cons m members =>
    obtain ⟨name, v⟩ := m
    rw [List.forall_mem_cons] at h
    have hlength := congrArg List.length (renderMembers_cons name v members)
    simp only [List.length_cons, List.length_append] at hlength
    have hmember := @readMember_render _ name v _ h.1 fuel _ (by omega)
      fun k hk => @readMoreMembers_render _ _ h.2 k (by omega) rest
    rw [ofChars_renderMembers] at hmember ⊢
    rw [readFirstMember, skipBlanks_cons (c := '"') (by decide)]
    exact hmember

/-! ### Members that ascend -/

theorem putMember_of_lt {name : String} {v : Json} {members : List (String × Json)}
    (h : ∀ m ∈ members, m.1 < name) : putMember name v members = members ++ [(name, v)] := by
  induction members with
  | nil => rfl
  | cons m members ih =>
    rw [List.forall_mem_cons] at h
    rw [putMember, if_neg (String.lt_asymm h.1), if_pos h.1, ih h.2, List.cons_append]

theorem foldl_putMember (before : List (String × Json)) {members : List (String × Json)}
    (h : (before ++ members).Pairwise fun m m' => m.1 < m'.1) :
    members.foldl (fun ms m => putMember m.1 m.2 ms) before = before ++ members := by
  induction members generalizing before with
  | nil => exact (List.append_nil before).symm
  | cons m members ih =>
    have hlt : ∀ m' ∈ before, m'.1 < m.1 := fun m' hm' =>
      (List.pairwise_append.mp h).2.2 m' hm' m List.mem_cons_self
    rw [List.foldl_cons, putMember_of_lt hlt, ih _ (by rwa [List.append_assoc]),
      List.append_assoc]
    rfl

/-- **Members that ascend by name** are the members of their object. -/
theorem ofMembers_of_pairwise {members : List (String × Json)}
    (h : members.Pairwise fun m m' => m.1 < m'.1) : ofMembers members = object members := by
  rw [ofMembers, foldl_putMember [] h, List.nil_append]

theorem reads_object {depth : Nat} {members : List (String × Json)}
    (hnames : members.Pairwise fun m m' => m.1 < m'.1) (h : ∀ m ∈ members, Reads depth m.2) :
    Reads (depth + 1) (.object members) := by
  refine reads_of_succ (by simp [render]) fun fuel rest hfuel _ => ?_
  rw [render, List.cons_append] at hfuel ⊢
  rw [List.length_cons, List.length_append] at hfuel
  have hmembers := @readFirstMember_render _ _ h fuel (by simp at hfuel; omega) rest
  rw [ofChars_cons, ofChars_append, List.cons_append, List.append_assoc, readValue,
    skipBlanks_cons (c := '\x7b') (by decide)]
  simp only [ofChars_cons, ofChars_nil, List.cons_append, List.nil_append, hmembers, bind_ok,
    ofMembers_of_pairwise hnames]
  rfl

/-! ### The whole text -/

/-- **A legible value is read back**, wherever it stands. -/
theorem Legible.reads {depth : Nat} {v : Json} (h : Legible depth v) : Reads depth v := by
  induction h with
  | null => exact reads_null _
  | bool value => exact reads_bool value _
  | integer hlow hhigh => exact reads_integer hlow hhigh _
  | string value => exact reads_string value _
  | array hitems ih => exact reads_array ih fun v hv => (hitems v hv).opens
  | object hnames hmembers ih => exact reads_object hnames ih

/-- **A legible value comes back from its text.** -/
theorem Legible.ofSource_render {v : Json} (h : Legible maxDepth v) :
    ofSource (ofChars v.render) = .ok v := by
  have hread := h.reads (callBound (ofChars v.render)) [] (by rw [callBound, length_ofChars]; omega)
    endsNumeral_nil
  rw [List.append_nil] at hread
  rw [ofSource, hread]
  rfl

/-- **A legible value comes back from the bytes of its text.** -/
theorem Legible.parseBytes_render {v : Json} (h : Legible maxDepth v) :
    parseBytes (v.render.flatMap Text.Utf8.encodeChar) = .ok v := by
  rw [parseBytes, Text.Utf8.decode_flatMap]
  exact h.ofSource_render

end Json

end EventJournal
