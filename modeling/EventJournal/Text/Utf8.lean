/-!
# Text as bytes

Payloads are bytes, and most of them are text in UTF-8. Writing takes each character to
its one to four bytes. Reading must not stop at a byte that belongs to no character, since
what is wrong with a payload depends on where the byte stands: `Utf8.decode` answers the
characters in order, with `none` in the place of every such byte.
-/

namespace EventJournal

namespace Text

/-- A text read from bytes, one entry a character; `none` is a byte that is part of no
character. -/
abbrev Source : Type := List (Option Char)

/-- A text as a source. -/
def Source.ofString (s : String) : Source := s.toList.map some

/-- How many bytes a source was read from. -/
def Source.byteLength (source : Source) : Nat :=
  source.foldr (fun u n => (u.map Char.utf8Size).getD 1 + n) 0

namespace Utf8

/-- The bytes of a character. -/
def encodeChar (c : Char) : List UInt8 := String.utf8EncodeChar c

/-- The bytes of a text. -/
def encode (s : String) : List UInt8 := s.toList.flatMap encodeChar

/-- The last six bits of a byte that continues a character, `none` for any other byte. -/
def continuation (b : UInt8) : Option Nat :=
  if 0x80 ≤ b && b < 0xC0 then some (b.toNat - 0x80) else none

/-- The character at the start of the bytes, with the number of bytes after its first.
Longer forms than the shortest and the surrogates are no characters. -/
def first? : List UInt8 → Option (Char × Nat)
  | [] => none
  | b :: rest =>
    if b < 0x80 then some (Char.ofNat b.toNat, 0)
    else if 0xC2 ≤ b && b < 0xE0 then
      match rest with
      | c :: _ => (continuation c).map fun c => (Char.ofNat ((b.toNat - 0xC0) * 64 + c), 1)
      | [] => none
    else if 0xE0 ≤ b && b < 0xF0 then
      match rest with
      | c :: d :: _ => do
        let code := (b.toNat - 0xE0) * 4096 + (← continuation c) * 64 + (← continuation d)
        if 0x800 ≤ code && !(0xD800 ≤ code && code < 0xE000) then
          some (Char.ofNat code, 2)
        else none
      | _ => none
    else if 0xF0 ≤ b && b < 0xF5 then
      match rest with
      | c :: d :: e :: _ => do
        let code := (b.toNat - 0xF0) * 262144 + (← continuation c) * 4096
          + (← continuation d) * 64 + (← continuation e)
        if 0x10000 ≤ code && code < 0x110000 then some (Char.ofNat code, 3) else none
      | _ => none
    else none

/-- The characters of the bytes, `skip` bytes being left of the character read last. -/
def decodeAfter (skip : Nat) : List UInt8 → Source
  | [] => []
  | b :: rest =>
    match skip with
    | skip + 1 => decodeAfter skip rest
    | 0 =>
      match first? (b :: rest) with
      | some (c, more) => some c :: decodeAfter more rest
      | none => none :: decodeAfter 0 rest

/-- The characters of the bytes. -/
def decode (bytes : List UInt8) : Source := decodeAfter 0 bytes

end Utf8

end Text

end EventJournal
