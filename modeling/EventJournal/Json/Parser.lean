import EventJournal.Json.Basic
import EventJournal.Json.Token

/-!
# Reading JSON

The value of a JSON text. Lists and objects may be nested to a depth of 127. Of two members
of one name the later counts.

A second reader goes over a value without keeping it. It asks less of it: any depth will
do, a numeral need have no value, and an escaped surrogate may stand alone.

The readers recurse on a bound for the number of their calls, which `Json.ofSource` takes
from the length of the text.
-/

namespace EventJournal

namespace Json

open Text (Source)

/-- The depth to which lists and objects may be nested. -/
def maxDepth : Nat := 127

/-- The source behind the colon between a name and its value. -/
def readColon (source : Source) : Except ReadError Source :=
  match skipBlanks source with
  | [] => .error .truncated
  | some ':' :: rest => .ok rest
  | _ => .error .malformed

mutual

/-- A value, nested to at most `depth`. -/
def readValue : (fuel depth : Nat) → Source → Except ReadError (Json × Source)
  | 0, _, _ => .error .malformed
  | fuel + 1, depth, source =>
    match skipBlanks source with
    | [] => .error .truncated
    | some 'n' :: rest => do return (null, ← readWord ['u', 'l', 'l'] rest)
    | some 't' :: rest => do return (bool true, ← readWord ['r', 'u', 'e'] rest)
    | some 'f' :: rest => do return (bool false, ← readWord ['a', 'l', 's', 'e'] rest)
    | some '"' :: rest => do
      let (s, rest) ← readString rest
      return (string s, rest)
    | some '[' :: rest =>
      match depth with
      | 0 => .error .malformed
      | depth + 1 => do
        let (items, rest) ← readFirstItem fuel depth rest
        return (array items, rest)
    | some '\x7b' :: rest =>
      match depth with
      | 0 => .error .malformed
      | depth + 1 => do
        let (members, rest) ← readFirstMember fuel depth rest
        return (ofMembers members, rest)
    | some '-' :: rest => do
      match ← readUnsigned true rest with
      | (.integer n, rest) => return (integer n, rest)
      | (.fraction x, rest) => return (fraction x, rest)
    | some c :: rest =>
      if c.isDigit then do
        match ← readUnsigned false (some c :: rest) with
        | (.integer n, rest) => return (integer n, rest)
        | (.fraction x, rest) => return (fraction x, rest)
      else .error .malformed
    | none :: _ => .error .malformed

/-- The items of a list whose bracket has been read. -/
def readFirstItem : (fuel depth : Nat) → Source → Except ReadError (List Json × Source)
  | 0, _, _ => .error .malformed
  | fuel + 1, depth, source =>
    match skipBlanks source with
    | [] => .error .truncated
    | some ']' :: rest => .ok ([], rest)
    | source => do
      let (v, rest) ← readValue fuel depth source
      let (vs, rest) ← readMoreItems fuel depth rest
      return (v :: vs, rest)

/-- The items of a list behind one of them. -/
def readMoreItems : (fuel depth : Nat) → Source → Except ReadError (List Json × Source)
  | 0, _, _ => .error .malformed
  | fuel + 1, depth, source =>
    match skipBlanks source with
    | [] => .error .truncated
    | some ']' :: rest => .ok ([], rest)
    | some ',' :: rest => do
      let (v, rest) ← readValue fuel depth rest
      let (vs, rest) ← readMoreItems fuel depth rest
      return (v :: vs, rest)
    | _ => .error .malformed

/-- The members of an object whose brace has been read. -/
def readFirstMember :
    (fuel depth : Nat) → Source → Except ReadError (List (String × Json) × Source)
  | 0, _, _ => .error .malformed
  | fuel + 1, depth, source =>
    match skipBlanks source with
    | [] => .error .truncated
    | some '\x7d' :: rest => .ok ([], rest)
    | source => readMember fuel depth source

/-- The members of an object behind one of them. -/
def readMoreMembers :
    (fuel depth : Nat) → Source → Except ReadError (List (String × Json) × Source)
  | 0, _, _ => .error .malformed
  | fuel + 1, depth, source =>
    match skipBlanks source with
    | [] => .error .truncated
    | some '\x7d' :: rest => .ok ([], rest)
    | some ',' :: rest => readMember fuel depth rest
    | _ => .error .malformed

/-- A member of an object and those behind it. -/
def readMember :
    (fuel depth : Nat) → Source → Except ReadError (List (String × Json) × Source)
  | 0, _, _ => .error .malformed
  | fuel + 1, depth, source =>
    match skipBlanks source with
    | [] => .error .truncated
    | some '"' :: rest => do
      let (name, rest) ← readString rest
      let (v, rest) ← readValue fuel depth (← readColon rest)
      let (ms, rest) ← readMoreMembers fuel depth rest
      return ((name, v) :: ms, rest)
    | _ => .error .malformed

end

mutual

/-- The source behind a value. -/
def skipValue : (fuel : Nat) → Source → Except ReadError Source
  | 0, _ => .error .malformed
  | fuel + 1, source =>
    match skipBlanks source with
    | [] => .error .truncated
    | some 'n' :: rest => readWord ['u', 'l', 'l'] rest
    | some 't' :: rest => readWord ['r', 'u', 'e'] rest
    | some 'f' :: rest => readWord ['a', 'l', 's', 'e'] rest
    | some '"' :: rest => skipText 0 rest
    | some '-' :: rest => skipUnsigned rest
    | some '[' :: rest =>
      match skipBlanks rest with
      | some ']' :: rest => .ok rest
      | [] => .error .truncated
      | rest => do skipMoreItems fuel (← skipValue fuel rest)
    | some '\x7b' :: rest =>
      match skipBlanks rest with
      | some '\x7d' :: rest => .ok rest
      | rest => skipMember fuel rest
    | some c :: rest =>
      if c.isDigit then skipUnsigned (some c :: rest) else .error .malformed
    | none :: _ => .error .malformed

/-- The source behind a list of which some items have been passed over. -/
def skipMoreItems : (fuel : Nat) → Source → Except ReadError Source
  | 0, _ => .error .malformed
  | fuel + 1, source =>
    match skipBlanks source with
    | [] => .error .truncated
    | some ']' :: rest => .ok rest
    | some ',' :: rest => do skipMoreItems fuel (← skipValue fuel rest)
    | _ => .error .malformed

/-- The source behind an object of which a member stands at the source. -/
def skipMember : (fuel : Nat) → Source → Except ReadError Source
  | 0, _ => .error .malformed
  | fuel + 1, source =>
    match skipBlanks source with
    | [] => .error .truncated
    | some '"' :: rest => do
      let rest ← skipValue fuel (← readColon (← skipText 0 rest))
      match skipBlanks rest with
      | [] => .error .truncated
      | some '\x7d' :: rest => .ok rest
      | some ',' :: rest => skipMember fuel rest
      | _ => .error .malformed
    | _ => .error .malformed

end

/-- A number of calls that no reading of the source exceeds: each character is looked at by
at most two calls that nest. -/
def callBound (source : Source) : Nat := 2 * source.length + 2

/-- The value read, if nothing but blanks follows it. -/
def complete {α : Type} : Except ReadError (α × Source) → Except ReadError α
  | .ok (v, rest) => if (skipBlanks rest).isEmpty then .ok v else .error .malformed
  | .error e => .error e

/-- The value of a source. -/
def ofSource (source : Source) : Except ReadError Json :=
  complete (readValue (callBound source) maxDepth source)

/-- The value of a text. -/
def parse (s : String) : Except ReadError Json := ofSource (Source.ofString s)

/-- The value of the text that the bytes stand for. -/
def parseBytes (bytes : List UInt8) : Except ReadError Json := ofSource (Text.Utf8.decode bytes)

end Json

end EventJournal
