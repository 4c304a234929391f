import EventJournal.Json.Fraction
import EventJournal.Text.Utf8

/-!
# The parts of a JSON text

Readers of the smallest parts: the words, the numerals and the quoted texts. Each takes the
source at its part and answers the value with the source behind it.

What is wrong with a text is one of three things. It ends too early (`truncated`), it is no
JSON (`malformed`), or it is JSON of another shape than the one asked for (`mismatched`).
The reader goes from left to right and stops at the first fault.
-/

namespace EventJournal

namespace Json

open Text (Source)

/-- What is wrong with a text. -/
inductive ReadError
  /-- The text ends before the value does. -/
  | truncated
  /-- The text is no JSON. -/
  | malformed
  /-- The text is JSON of another shape than the one asked for. -/
  | mismatched
  deriving DecidableEq, Repr

/-- The source without the blanks it starts with. -/
def skipBlanks : Source → Source
  | some ' ' :: rest | some '\n' :: rest | some '\t' :: rest | some '\r' :: rest =>
    skipBlanks rest
  | source => source

/-- The source behind the given characters. -/
def readWord : List Char → Source → Except ReadError Source
  | [], source => .ok source
  | _ :: _, [] => .error .truncated
  | c :: word, u :: rest => if u = some c then readWord word rest else .error .malformed

/-! ### Numerals -/

/-- A number as a numeral spells it. -/
inductive Numeral
  /-- A whole number of at most sixty-four bits. -/
  | integer (value : Int)
  /-- A binary fraction. -/
  | fraction (value : Float)

/-- The digits a source starts with, and the source behind them. -/
def spanDigits : Source → List Char × Source
  | some c :: rest =>
    if c.isDigit then
      let (digits, rest) := spanDigits rest
      (c :: digits, rest)
    else ([], some c :: rest)
  | source => ([], source)

/-- A number with digits put behind it, as long as sixty-four bits hold it, and the count
of the digits that were left over. -/
def pushDigits (n : Nat) : List Char → Nat × Nat
  | [] => (n, 0)
  | c :: rest =>
    let m := n * 10 + Text.digitValue c
    if m ≤ Text.maxWord then pushDigits m rest else (n, rest.length + 1)

/-- The fraction of a significand and an exponent, where double precision holds it. -/
def readFractionOf (negative : Bool) (significand : Nat) (exponent : Int) (rest : Source) :
    Except ReadError (Numeral × Source) :=
  match Fraction.ofParts? negative significand exponent with
  | some x => .ok (.fraction x, rest)
  | none => .error .malformed

/-- The numeral whose exponent mark has been read. -/
def readExponent (negative : Bool) (significand : Nat) (exponent : Int) (source : Source) :
    Except ReadError (Numeral × Source) :=
  let (down, source) := match source with
    | some '+' :: rest => (false, rest)
    | some '-' :: rest => (true, rest)
    | source => (false, source)
  match spanDigits source with
  | ([], []) => .error .truncated
  | ([], _) => .error .malformed
  | (digits, rest) =>
    let n : Int := Text.ofDigits digits
    readFractionOf negative significand (if down then exponent - n else exponent + n) rest

/-- The numeral whose point has been read. -/
def readDecimals (negative : Bool) (significand : Nat) (exponent : Int) (source : Source) :
    Except ReadError (Numeral × Source) :=
  match spanDigits source with
  | ([], []) => .error .truncated
  | ([], _) => .error .malformed
  | (digits, rest) =>
    let (significand, dropped) := pushDigits significand digits
    let exponent := exponent - ((digits.length - dropped : Nat) : Int)
    match rest with
    | some 'e' :: rest | some 'E' :: rest => readExponent negative significand exponent rest
    | rest => readFractionOf negative significand exponent rest

/-- The whole number of a sign and a significand. Minus zero is a fraction, and so is what
lies below the least signed number of sixty-four bits. -/
def wholeNumber (negative : Bool) (significand : Nat) : Numeral :=
  if !negative then .integer significand
  else if significand = 0 || 0x8000000000000000 < significand then
    .fraction (-(UInt64.ofNat significand).toFloat)
  else .integer (-(significand : Int))

/-- The numeral at the source, its sign having been read. -/
def readUnsigned (negative : Bool) (source : Source) : Except ReadError (Numeral × Source) :=
  match spanDigits source with
  | ([], []) => .error .truncated
  | ([], _) => .error .malformed
  | ('0' :: _ :: _, _) => .error .malformed
  | (digits, rest) =>
    let (significand, dropped) := pushDigits 0 digits
    match rest with
    | some '.' :: rest => readDecimals negative significand dropped rest
    | some 'e' :: rest | some 'E' :: rest => readExponent negative significand dropped rest
    | rest =>
      if dropped = 0 then .ok (wholeNumber negative significand, rest)
      else readFractionOf negative significand dropped rest

/-- The source behind a sign, if one stands there. -/
def skipSign : Source → Source
  | some '+' :: rest | some '-' :: rest => rest
  | source => source

/-- The source behind a numeral whose exponent mark has been read. -/
def skipExponent (source : Source) : Except ReadError Source :=
  match spanDigits (skipSign source) with
  | ([], _) => .error .malformed
  | (_, rest) => .ok rest

/-- The source behind a numeral whose digits have been read, up to an exponent. -/
def skipPower : Source → Except ReadError Source
  | some 'e' :: rest | some 'E' :: rest => skipExponent rest
  | rest => .ok rest

/-- The source behind a numeral whose point has been read. -/
def skipDecimals (source : Source) : Except ReadError Source :=
  match spanDigits source with
  | ([], _) => .error .malformed
  | (_, rest) => skipPower rest

/-- The source behind a numeral whose sign has been read. The numeral need have no value. -/
def skipUnsigned (source : Source) : Except ReadError Source :=
  match spanDigits source with
  | ([], _) => .error .malformed
  | ('0' :: _ :: _, _) => .error .malformed
  | (_, some '.' :: rest) => skipDecimals rest
  | (_, rest) => skipPower rest

/-! ### Quoted texts -/

/-- The number that the next four hexadecimal digits stand for. -/
def readHex (source : Source) : Except ReadError Nat :=
  let digits := (source.take 4).filterMap id
  match if digits.length = 4 then Text.ofHexadecimal? digits else none with
  | some n => .ok n
  | none => if 4 ≤ Source.byteLength (source.take 4) then .error .malformed else .error .truncated

/-- The character of an escape whose reverse solidus has been read, and how many
characters the escape goes on for. A character beyond the sixteen-bit ones is escaped as
two surrogates, and no surrogate stands alone. -/
def readEscape : Source → Except ReadError (Char × Nat)
  | [] => .error .truncated
  | some '"' :: _ => .ok ('"', 1)
  | some '\\' :: _ => .ok ('\\', 1)
  | some '/' :: _ => .ok ('/', 1)
  | some 'b' :: _ => .ok ('\x08', 1)
  | some 'f' :: _ => .ok ('\x0c', 1)
  | some 'n' :: _ => .ok ('\n', 1)
  | some 'r' :: _ => .ok ('\r', 1)
  | some 't' :: _ => .ok ('\t', 1)
  | some 'u' :: rest => do
    let n ← readHex rest
    if 0xDC00 ≤ n && n < 0xE000 then .error .malformed
    else if n < 0xD800 || 0xE000 ≤ n then return (Char.ofNat n, 5)
    else
      match rest.drop 4 with
      | [] => .error .truncated
      | some '\\' :: rest =>
        match rest with
        | [] => .error .truncated
        | some 'u' :: rest =>
          let m ← readHex rest
          if 0xDC00 ≤ m && m < 0xE000 then
            return (Char.ofNat ((n - 0xD800) * 0x400 + (m - 0xDC00) + 0x10000), 11)
          else .error .malformed
        | _ => .error .malformed
      | _ => .error .malformed
  | _ => .error .malformed

/-- A text whose first quotation mark has been read, after `skip` characters of an escape.
A byte that is part of no character spoils the text, which is found out at its end. -/
def readText (skip : Nat) (sound : Bool) : Source → Except ReadError (List Char × Source)
  | [] => .error .truncated
  | u :: rest =>
    match skip with
    | skip + 1 => readText skip sound rest
    | 0 =>
      match u with
      | none => readText 0 false rest
      | some c =>
        if c = '"' then if sound then .ok ([], rest) else .error .malformed
        else if c = '\\' then do
          let (c, more) ← readEscape rest
          let (cs, rest) ← readText more sound rest
          return (c :: cs, rest)
        else if c.toNat < 0x20 then .error .malformed
        else do
          let (cs, rest) ← readText 0 sound rest
          return (c :: cs, rest)

/-- A quoted text, its first quotation mark having been read. -/
def readString (source : Source) : Except ReadError (String × Source) := do
  let (cs, rest) ← readText 0 true source
  return (String.ofList cs, rest)

/-- How many characters an escape goes on for, whatever its character. -/
def skipEscape : Source → Except ReadError Nat
  | [] => .error .truncated
  | some 'u' :: rest => do
    let _ ← readHex rest
    return 5
  | some c :: _ => if "\"\\/bfnrt".toList.contains c then .ok 1 else .error .malformed
  | _ => .error .malformed

/-- The source behind a text whose first quotation mark has been read, after `skip`
characters of an escape. -/
def skipText (skip : Nat) : Source → Except ReadError Source
  | [] => .error .truncated
  | u :: rest =>
    match skip with
    | skip + 1 => skipText skip rest
    | 0 =>
      match u with
      | none => skipText 0 rest
      | some c =>
        if c = '"' then .ok rest
        else if c = '\\' then do
          let more ← skipEscape rest
          skipText more rest
        else if c.toNat < 0x20 then .error .malformed
        else skipText 0 rest

end Json

end EventJournal
