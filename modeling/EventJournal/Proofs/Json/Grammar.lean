import EventJournal.Json.Parser
import EventJournal.Proofs.Json.Token

/-!
# The grammar of JSON

What a JSON text may look like, as data: every part of a text is a type whose values are the
spellings of that part, and the text is put together from them. Nothing here mentions a reader.

| Part | Type | Text |
|---|---|---|
| blanks | `Gap` | any number of the four blank characters |
| a character of a quoted text | `Letter` | itself, a short escape, or four hexadecimal digits |
| a quoted text | `List Letter` | `quotation` |
| a numeral | `Figures` | sign, whole digits, decimals, exponent |
| an item of a list | `Item` | a value with blanks around it |
| a member of an object | `Member` | a quoted name, a colon and a value, with blanks around each |

A text of these parts need not stand for anything: an escape may be half of a surrogate pair
without the other half, and a numeral may be too large for every number. What a quoted text stands
for, if it stands for a text, is `EventJournal.Json.meaning?`.

The values are put together in `EventJournal.Json.WellFormed`, to any depth.
-/

namespace EventJournal

namespace Json

open Text (Source)

/-! ### Blanks -/

/-- **Blanks between two parts of a text.** -/
structure Gap where
  /-- The blanks. -/
  chars : List Char
  /-- They are blanks. -/
  isBlank : ∀ c ∈ chars, c ∈ [' ', '\n', '\t', '\r']

/-- No blanks. -/
def Gap.none : Gap := ⟨[], nofun⟩

@[simp] theorem Gap.chars_none : Gap.none.chars = [] := rfl

/-! ### Quoted texts -/

/-- **A character that needs no escape.** -/
def IsPlain (c : Char) : Prop := c ≠ '"' ∧ c ≠ '\\' ∧ ¬c.toNat < 0x20

instance : DecidablePred IsPlain := fun c => inferInstanceAs (Decidable (_ ∧ _ ∧ ¬c.toNat < _))

/-- The characters that have a short escape, each behind the mark it is escaped by. -/
def shortEscapes : List (Char × Char) :=
  [('"', '"'), ('\\', '\\'), ('/', '/'), ('b', '\x08'), ('f', '\x0c'), ('n', '\n'), ('r', '\r'),
    ('t', '\t')]

/-- **A character of a quoted text, as it is spelled.** -/
inductive Letter
  /-- The character itself. -/
  | plain (c : Char) (isPlain : IsPlain c)
  /-- A short escape. -/
  | short (mark c : Char) (isShort : (mark, c) ∈ shortEscapes)
  /-- The four hexadecimal digits of a number of sixteen bits. -/
  | code (digits : List Char) (n : Nat) (isCode : digits.length = 4 ∧
      Text.ofHexadecimal? digits = some n)

/-- The spelling of a character. -/
def Letter.chars : Letter → List Char
  | plain c _ => [c]
  | short mark _ _ => ['\\', mark]
  | code digits _ _ => '\\' :: 'u' :: digits

/-- A quoted text. -/
def quotation (letters : List Letter) : List Char :=
  '"' :: letters.flatMap Letter.chars ++ ['"']

/-- Whether a number is the first half of a surrogate pair. -/
def IsHigh (n : Nat) : Prop := 0xD800 ≤ n ∧ n < 0xDC00

/-- Whether a number is the second half of a surrogate pair. -/
def IsLow (n : Nat) : Prop := 0xDC00 ≤ n ∧ n < 0xE000

instance : DecidablePred IsHigh := fun n => inferInstanceAs (Decidable (_ ≤ n ∧ n < _))

instance : DecidablePred IsLow := fun n => inferInstanceAs (Decidable (_ ≤ n ∧ n < _))

/-- The character that two halves of a surrogate pair stand for. -/
def ofHalves (high low : Nat) : Char :=
  Char.ofNat ((high - 0xD800) * 0x400 + (low - 0xDC00) + 0x10000)

/-- **What a quoted text stands for**, `none` if half of a surrogate pair stands in it without the
other. -/
def meaning? : List Letter → Option (List Char)
  | [] => some []
  | .plain c _ :: letters => (meaning? letters).map (c :: ·)
  | .short _ c _ :: letters => (meaning? letters).map (c :: ·)
  | .code _ n _ :: letters =>
    if IsLow n then none
    else if IsHigh n then
      match letters with
      | .code _ m _ :: letters =>
        if IsLow m then (meaning? letters).map (ofHalves n m :: ·) else none
      | [] | .plain _ _ :: _ | .short _ _ _ :: _ => none
    else (meaning? letters).map (Char.ofNat n :: ·)

/-! ### Numerals -/

/-- **Digits**, one at least. -/
structure Digits where
  /-- The digits. -/
  chars : List Char
  /-- There is one. -/
  ne_nil : chars ≠ []
  /-- They are digits. -/
  isDigit : ∀ c ∈ chars, c.isDigit

/-- **The exponent of a numeral.** -/
structure Exponent where
  /-- The letter it begins with. -/
  mark : Char
  /-- The letter is an E. -/
  isMark : mark = 'e' ∨ mark = 'E'
  /-- The sign, which may be missing. -/
  sign : List Char
  /-- The sign is one. -/
  isSign : sign = [] ∨ sign = ['+'] ∨ sign = ['-']
  /-- The digits. -/
  digits : Digits

/-- The text of an exponent. -/
def Exponent.chars (e : Exponent) : List Char := e.mark :: e.sign ++ e.digits.chars

/-- **A numeral.** -/
structure Figures where
  /-- Whether it has a minus sign. -/
  negative : Bool
  /-- The digits before the point. -/
  whole : Digits
  /-- The digits before the point begin with no zero that could be left out. -/
  shortest : ∀ cs, whole.chars = '0' :: cs → cs = []
  /-- The digits behind the point, if there is one. -/
  decimals : Option Digits
  /-- The exponent, if there is one. -/
  exponent : Option Exponent

/-- What stands behind the digits before the point. -/
def Figures.fraction (f : Figures) : List Char :=
  f.decimals.elim [] (fun d => '.' :: d.chars) ++ f.exponent.elim [] Exponent.chars

/-- A numeral without its sign. -/
def Figures.unsigned (f : Figures) : List Char := f.whole.chars ++ f.fraction

/-- The text of a numeral. -/
def Figures.chars (f : Figures) : List Char := if f.negative then '-' :: f.unsigned else f.unsigned

/-! ### Lists and objects -/

/-- **A value in its place**: with the blanks before it and behind it. -/
structure Item where
  /-- The blanks before it. -/
  lead : Gap
  /-- The value. -/
  body : List Char
  /-- The blanks behind it. -/
  trail : Gap

/-- The text of a value in its place. -/
def Item.chars (i : Item) : List Char := i.lead.chars ++ i.body ++ i.trail.chars

/-- **A member of an object.** -/
structure Member where
  /-- The blanks before the name. -/
  lead : Gap
  /-- The name. -/
  name : List Letter
  /-- The blanks behind the name. -/
  trail : Gap
  /-- The value behind the colon. -/
  value : Item

/-- The text of a member. -/
def Member.chars (m : Member) : List Char :=
  m.lead.chars ++ quotation m.name ++ m.trail.chars ++ ':' :: m.value.chars

/-- The name of a member, if it stands for a text. -/
def Member.name? (m : Member) : Option String := (meaning? m.name).map String.ofList

/-- Parts of a text with commas between them. -/
def separated (parts : List (List Char)) : List Char := [','].intercalate parts

/-- A list. The blanks are those of an empty one. -/
def listText (gap : Gap) (items : List Item) : List Char :=
  '[' :: gap.chars ++ separated (items.map Item.chars) ++ [']']

/-- An object. The blanks are those of an empty one. -/
def objectText (gap : Gap) (members : List Member) : List Char :=
  '\x7b' :: gap.chars ++ separated (members.map Member.chars) ++ ['\x7d']

/-- The word that stands for no value. -/
def nullText : List Char := ['n', 'u', 'l', 'l']

/-- The words that stand for themselves. -/
def words : List (List Char) := [nullText, ['t', 'r', 'u', 'e'], ['f', 'a', 'l', 's', 'e']]

/-- **A value, as JSON spells it**, nested to any depth. -/
inductive WellFormed : List Char → Prop
  /-- One of the three words. -/
  | word {cs} : cs ∈ words → WellFormed cs
  /-- A numeral. -/
  | numeral (f : Figures) : WellFormed f.chars
  /-- A quoted text. -/
  | quoted (letters : List Letter) : WellFormed (quotation letters)
  /-- A list of values. -/
  | list (gap : Gap) {items : List Item} : (∀ i ∈ items, WellFormed i.body) →
    WellFormed (listText gap items)
  /-- An object of named values. -/
  | object (gap : Gap) {members : List Member} : (∀ m ∈ members, WellFormed m.value.body) →
    WellFormed (objectText gap members)

/-! ### Parts and their commas -/

/-- The parts behind the first, each behind its comma. -/
def behindCommas (parts : List (List Char)) : List Char := parts.flatMap (',' :: ·)

theorem separated_cons (part : List Char) (parts : List (List Char)) :
    separated (part :: parts) = part ++ behindCommas parts := by
  induction parts generalizing part with
  | nil => simp [separated, behindCommas]
  | cons next parts ih =>
    simpa [separated, behindCommas] using ih next

theorem behindCommas_cons (part : List Char) (parts : List (List Char)) :
    behindCommas (part :: parts) = ',' :: separated (part :: parts) := by
  rw [separated_cons]
  rfl

end Json

end EventJournal
