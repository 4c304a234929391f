import EventJournal.Instant.Rfc3339
import EventJournal.Json.Parser
import EventJournal.Json.Printer
import EventJournal.Uuid

/-!
# Records as JSON

A record is written as an object with one member a field, in the order of its declaration.
It is read from an object with the members in any order, members of other names being
passed over, and from a list of the fields in the order of their declaration. A field that
is missing, that occurs twice or that is `null` makes a record of another shape.

The shape of a record is the list of its fields with the kind of each, and one reader and
one writer serve all shapes.
-/

namespace EventJournal

namespace Json

open Text (Source)

/-- The kind of a field. -/
inductive Kind
  /-- A text. -/
  | text
  /-- A natural number of sixty-four bits. -/
  | word
  /-- A signed number of sixty-four bits. -/
  | signed
  /-- Bytes, as a list of numbers. -/
  | bytes
  /-- An identifier, as a text. -/
  | uuid
  /-- A moment, as a text. -/
  | instant
  deriving DecidableEq, Repr

/-- The value of a field. -/
inductive Datum
  /-- A text. -/
  | text (value : String)
  /-- A natural number of sixty-four bits. -/
  | word (value : Nat)
  /-- A signed number of sixty-four bits. -/
  | signed (value : Int)
  /-- Bytes. -/
  | bytes (value : List UInt8)
  /-- An identifier. -/
  | uuid (value : Uuid)
  /-- A moment. -/
  | instant (value : Instant)
  deriving DecidableEq

/-! ### Writing -/

/-- Numbers with commas between them. -/
def renderBytes : List UInt8 → List Char
  | [] => []
  | b :: rest =>
    Text.decimal b.toNat ++ (if rest.isEmpty then [] else [',']) ++ renderBytes rest

/-- The written form of a field's value. -/
def Datum.render : Datum → List Char
  | text s => quote s
  | word n => Text.decimal n
  | signed n => renderInteger n
  | bytes bs => '[' :: renderBytes bs ++ [']']
  | uuid u => '"' :: u.render ++ ['"']
  | instant i => '"' :: i.render ++ ['"']

/-- Named fields with commas between them. -/
def renderFields : List (String × Datum) → List Char
  | [] => []
  | (name, d) :: rest =>
    quote name ++ ':' :: d.render ++ (if rest.isEmpty then [] else [',']) ++ renderFields rest

/-! ### Reading a field -/

/-- The fault of a source that holds a value of another kind: the value may itself be
faulty, but what a bracket or a brace holds is not looked at. -/
def otherKind (source : Source) : ReadError :=
  let after {α : Type} : Except ReadError α → ReadError
    | .ok _ => .mismatched
    | .error e => e
  match source with
  | some 'n' :: rest => after (readWord ['u', 'l', 'l'] rest)
  | some 't' :: rest => after (readWord ['r', 'u', 'e'] rest)
  | some 'f' :: rest => after (readWord ['a', 'l', 's', 'e'] rest)
  | some '"' :: rest => after (readString rest)
  | some '-' :: rest => after (readUnsigned true rest)
  | some '[' :: _ | some '\x7b' :: _ => .mismatched
  | some c :: rest =>
    if c.isDigit then after (readUnsigned false (some c :: rest)) else .malformed
  | none :: _ => .malformed
  | [] => .truncated

/-- A quoted text. -/
def readQuoted (source : Source) : Except ReadError (String × Source) :=
  match skipBlanks source with
  | some '"' :: rest => readString rest
  | source => .error (otherKind source)

/-- A quoted text that stands for a value. -/
def readThrough {α : Type} (ofText? : String → Option α) (source : Source) :
    Except ReadError (α × Source) := do
  let (s, rest) ← readQuoted source
  match ofText? s with
  | some v => return (v, rest)
  | none => .error .mismatched

/-- A whole number from `least` to `greatest`. -/
def readBetween (least greatest : Int) (source : Source) : Except ReadError (Int × Source) :=
  let bounded : Except ReadError (Numeral × Source) → Except ReadError (Int × Source)
    | .ok (.integer n, rest) =>
      if least ≤ n ∧ n ≤ greatest then .ok (n, rest) else .error .mismatched
    | .ok (.fraction _, _) => .error .mismatched
    | .error e => .error e
  match skipBlanks source with
  | some '-' :: rest => bounded (readUnsigned true rest)
  | some c :: rest =>
    if c.isDigit then bounded (readUnsigned false (some c :: rest))
    else .error (otherKind (some c :: rest))
  | source => .error (otherKind source)

/-- The items of a list behind one of them, each read by `item`. -/
def readMoreOf {α : Type} (item : Source → Except ReadError (α × Source)) :
    (fuel : Nat) → Source → Except ReadError (List α × Source)
  | 0, _ => .error .malformed
  | fuel + 1, source =>
    match skipBlanks source with
    | [] => .error .truncated
    | some ']' :: rest => .ok ([], rest)
    | some ',' :: rest =>
      match skipBlanks rest with
      | some ']' :: _ => .error .malformed
      | rest => do
        let (v, rest) ← item rest
        let (vs, rest) ← readMoreOf item fuel rest
        return (v :: vs, rest)
    | _ => .error .malformed

/-- A list whose items are read by `item`. -/
def readListOf {α : Type} (item : Source → Except ReadError (α × Source)) (source : Source) :
    Except ReadError (List α × Source) :=
  match skipBlanks source with
  | some '[' :: rest =>
    match skipBlanks rest with
    | [] => .error .truncated
    | some ']' :: rest => .ok ([], rest)
    | rest => do
      let (v, rest) ← item rest
      let (vs, rest) ← readMoreOf item (callBound rest) rest
      return (v :: vs, rest)
  | source => .error (otherKind source)

/-- A byte, as a number. -/
def readByte (source : Source) : Except ReadError (UInt8 × Source) := do
  let (n, rest) ← readBetween 0 255 source
  return (UInt8.ofNat n.toNat, rest)

/-- The value of a field of the given kind. -/
def readDatum (kind : Kind) (source : Source) : Except ReadError (Datum × Source) :=
  match kind with
  | .text => do
    let (s, rest) ← readQuoted source
    return (.text s, rest)
  | .word => do
    let (n, rest) ← readBetween 0 Text.maxWord source
    return (.word n.toNat, rest)
  | .signed => do
    let (n, rest) ← readBetween (-0x8000000000000000) 0x7FFFFFFFFFFFFFFF source
    return (.signed n, rest)
  | .bytes => do
    let (bs, rest) ← readListOf readByte source
    return (.bytes bs, rest)
  | .uuid => do
    let (u, rest) ← readThrough Uuid.ofText? source
    return (.uuid u, rest)
  | .instant => do
    let (i, rest) ← readThrough (fun s => Instant.parse? s.toList) source
    return (.instant i, rest)

/-! ### Reading a record -/

/-- The fields of a record, with the kind of each. -/
abbrev Shape : Type := List (String × Kind)

/-- The fields of a list behind `count` of them, in the order of the shape. -/
def readRow : Shape → (isFirst : Bool) → Source → Except ReadError (List Datum × Source)
  | [], _, source =>
    match skipBlanks source with
    | [] => .error .truncated
    | some ']' :: rest => .ok ([], rest)
    | _ => .error .malformed
  | (_, kind) :: shape, isFirst, source =>
    match skipBlanks source with
    | [] => .error .truncated
    | some ']' :: _ => .error .mismatched
    | source => do
      let source ←
        if isFirst then pure source
        else
          match source with
          | some ',' :: rest =>
            match skipBlanks rest with
            | [] => .error .truncated
            | some ']' :: _ => .error .malformed
            | rest => pure rest
          | _ => .error .malformed
      let (d, rest) ← readDatum kind source
      let (ds, rest) ← readRow shape false rest
      return (d :: ds, rest)

/-- The member of an object that stands at the source and those behind it, added to the
fields `found` so far. -/
def readNamed (shape : Shape) :
    (fuel : Nat) → List (String × Datum) → Source →
      Except ReadError (List (String × Datum) × Source)
  | 0, _, _ => .error .malformed
  | fuel + 1, found, source =>
    match skipBlanks source with
    | [] => .error .truncated
    | some '"' :: rest => do
      let (name, rest) ← readString rest
      let (found, rest) ←
        match shape.lookup name with
        | some kind =>
          if (found.lookup name).isSome then .error .mismatched
          else do
            let (d, rest) ← readDatum kind (← readColon rest)
            pure (found ++ [(name, d)], rest)
        | none => do
          let rest ← readColon rest
          pure (found, ← skipValue (callBound rest) rest)
      match skipBlanks rest with
      | [] => .error .truncated
      | some '\x7d' :: rest => return (found, rest)
      | some ',' :: rest => readNamed shape fuel found rest
      | _ => .error .malformed
    | _ => .error .malformed

/-- The fields of a shape, in its order, from the fields that were found. -/
def inOrder (shape : Shape) (found : List (String × Datum)) : Except ReadError (List Datum) :=
  shape.mapM fun f =>
    match found.lookup f.1 with
    | some d => .ok d
    | none => .error .mismatched

/-- The fields of a record, from its object or its list. -/
def readFields (shape : Shape) (source : Source) : Except ReadError (List Datum × Source) :=
  match skipBlanks source with
  | some '[' :: rest => readRow shape true rest
  | some '\x7b' :: rest => do
    let (found, rest) ←
      match skipBlanks rest with
      | [] => .error .truncated
      | some '\x7d' :: rest => pure ([], rest)
      | rest => readNamed shape (callBound rest) [] rest
    return (← inOrder shape found, rest)
  | source => .error (otherKind source)

/-! ### Types of records -/

/-- A type of records: its shape, and the fields of a record in the order of the shape. -/
class Recorded (ρ : Type) where
  /-- The fields, with the kind of each. -/
  shape : Shape
  /-- The fields of a record. -/
  toData : ρ → List Datum
  /-- The record of the given fields, if they are of the shape. -/
  ofData? : List Datum → Option ρ

variable {ρ : Type} [Recorded ρ]

/-- The JSON text of a record. -/
def encode (r : ρ) : List Char :=
  '\x7b' :: renderFields (((Recorded.shape ρ).map (·.1)).zip (Recorded.toData r)) ++ ['\x7d']

/-- The record of a source. -/
def decodeSource (source : Source) : Except ReadError ρ := do
  let fields ← complete (readFields (Recorded.shape ρ) source)
  match Recorded.ofData? fields with
  | some r => return r
  | none => .error .mismatched

/-- The record of a JSON text. -/
def decode (s : String) : Except ReadError ρ := decodeSource (Source.ofString s)

end Json

end EventJournal
