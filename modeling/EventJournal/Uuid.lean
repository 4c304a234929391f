import EventJournal.SortedMap
import EventJournal.Text.Digits

/-!
# Identifiers

Streams and events are named by numbers of 128 bits. The written form is thirty-two
lower-case hexadecimal digits in groups of eight, four, four, four and twelve. Four forms
are read, in either case: the grouped one, the same in braces, the same after `urn:uuid:`,
and the thirty-two digits without hyphens.
-/

namespace EventJournal

/-- How many identifiers there are: the numbers of 128 bits. -/
def Uuid.count : Nat := 0x100000000000000000000000000000000

/-- An identifier of 128 bits. -/
structure Uuid where
  /-- The identifier as a number. -/
  value : Nat
  /-- The number has at most 128 bits. -/
  isLt : value < Uuid.count
  deriving DecidableEq

namespace Uuid

/-- The identifier whose number is the last 128 bits of `n`. -/
def ofNat (n : Nat) : Uuid := ⟨n % count, Nat.mod_lt _ (by decide)⟩

/-- The identifier of all zeros, which names nothing. -/
def nil : Uuid := ofNat 0

/-- Whether the identifier is the one that names nothing. -/
def isNil (u : Uuid) : Bool := u.value == 0

instance : Inhabited Uuid := ⟨nil⟩

instance : LT Uuid := ⟨fun a b => a.value < b.value⟩

instance : DecidableLT Uuid := fun a b => inferInstanceAs (Decidable (a.value < b.value))

instance : KeyOrder Uuid where
  irrefl a := Nat.lt_irrefl a.value
  trans {a b c} h₁ h₂ := show a.value < c.value from Nat.lt_trans h₁ h₂
  connected {a b} h₁ h₂ := by
    cases a
    cases b
    congr
    exact KeyOrder.connected h₁ h₂

/-! ### The written form -/

/-- The digits of an identifier, without hyphens. -/
def digits (u : Uuid) : List Char := Text.hexadecimal 32 u.value

/-- Digits in groups of eight, four, four, four and twelve. -/
def grouped (digits : List Char) : List Char :=
  digits.take 8 ++ '-' :: (digits.drop 8).take 4 ++ '-' :: (digits.drop 12).take 4
    ++ '-' :: (digits.drop 16).take 4 ++ '-' :: digits.drop 20

/-- The written form of an identifier. -/
def render (u : Uuid) : List Char := grouped u.digits

/-- The written form of an identifier, as a text. -/
def text (u : Uuid) : String := String.ofList u.render

/-! ### Reading -/

/-- Thirty-two hexadecimal digits. -/
def ofDigits? (cs : List Char) : Option Uuid :=
  if cs.length = 32 then (Text.ofHexadecimal? cs).map ofNat else none

/-- Thirty-two hexadecimal digits in their five groups. -/
def ofGrouped? (cs : List Char) : Option Uuid :=
  let digits := cs.take 8 ++ (cs.drop 9).take 4 ++ (cs.drop 14).take 4 ++ (cs.drop 19).take 4
    ++ cs.drop 24
  if cs.length = 36 && cs[8]? = some '-' && cs[13]? = some '-' && cs[18]? = some '-'
      && cs[23]? = some '-' then ofDigits? digits
  else none

/-- An identifier in any of the four forms. -/
def parse? (cs : List Char) : Option Uuid :=
  if cs.length = 32 then ofDigits? cs
  else if cs.length = 36 then ofGrouped? cs
  else if cs.length = 38 && cs.head? = some '\x7b' && cs.getLast? = some '\x7d' then
    ofGrouped? (cs.drop 1).dropLast
  else if cs.length = 45 && cs.take 9 = ['u', 'r', 'n', ':', 'u', 'u', 'i', 'd', ':'] then
    ofGrouped? (cs.drop 9)
  else none

/-- An identifier in any of the four forms, from a text. -/
def ofText? (s : String) : Option Uuid := parse? s.toList

end Uuid

end EventJournal
