/-!
# Numerals

Decimal and hexadecimal numerals as lists of characters, written and read. The decimal
numeral of a number is the shortest; `Text.padded` writes a fixed number of places with
leading zeros.
-/

namespace EventJournal

namespace Text

/-! ### Decimal -/

/-- The decimal numeral of a number. -/
def decimal (n : Nat) : List Char := Nat.toDigits 10 n

/-- The decimal numeral of a number with at least `width` places. -/
def padded (width n : Nat) : List Char :=
  List.replicate (width - (decimal n).length) '0' ++ decimal n

/-- The value of a decimal digit. -/
def digitValue (c : Char) : Nat := c.toNat - '0'.toNat

/-- The number that a list of decimal digits stands for. -/
def ofDigits (cs : List Char) : Nat :=
  cs.foldl (fun n c => n * 10 + digitValue c) 0

/-- The greatest number of 64 bits. -/
def maxWord : Nat := 0xFFFFFFFFFFFFFFFF

/-- A number of 64 bits, read as settings spell it: decimal digits, a plus sign being
allowed before them. -/
def readWord? (s : String) : Option Nat :=
  let digits := match s.toList with
    | '+' :: rest => rest
    | cs => cs
  if !digits.isEmpty && digits.all Char.isDigit && ofDigits digits ≤ maxWord then
    some (ofDigits digits)
  else none

/-! ### Hexadecimal -/

/-- The lower-case hexadecimal digit of a number below sixteen. -/
def hexDigit (n : Nat) : Char := Nat.digitChar n

/-- The value of a hexadecimal digit of either case. -/
def hexValue? (c : Char) : Option Nat :=
  if c.isDigit then some (c.toNat - '0'.toNat)
  else if 'a' ≤ c && c ≤ 'f' then some (c.toNat - 'a'.toNat + 10)
  else if 'A' ≤ c && c ≤ 'F' then some (c.toNat - 'A'.toNat + 10)
  else none

/-- The last `width` hexadecimal digits of a number. -/
def hexadecimal : (width : Nat) → Nat → List Char
  | 0, _ => []
  | width + 1, n => hexadecimal width (n / 16) ++ [hexDigit (n % 16)]

/-- The number that a list of hexadecimal digits stands for, `none` if one is no digit. -/
def ofHexadecimal? (cs : List Char) : Option Nat :=
  cs.foldlM (fun n c => (hexValue? c).map (n * 16 + ·)) 0

/-- Bytes as pairs of hexadecimal digits. -/
def hexBytes (bytes : List UInt8) : List Char :=
  bytes.flatMap fun b => hexadecimal 2 b.toNat

/-- The bytes that pairs of hexadecimal digits stand for. -/
def ofHexBytes? : List Char → Option (List UInt8)
  | [] => some []
  | a :: b :: rest => do
    let byte := (← hexValue? a) * 16 + (← hexValue? b)
    return UInt8.ofNat byte :: (← ofHexBytes? rest)
  | _ => none

end Text

end EventJournal
