/-!
# Ranges of code points

A property of characters is held as a list of closed ranges of code points, ascending and
apart, and read by one look-up.
-/

namespace EventJournal

namespace Text

/-- A closed range of code points. -/
structure Range where
  /-- The first code point of the range. -/
  first : Nat
  /-- The last code point of the range. -/
  last : Nat
  deriving DecidableEq, Repr

namespace Range

/-- Whether a code point lies in one of the ranges. -/
def covers (ranges : List Range) (code : Nat) : Bool :=
  ranges.any fun r => r.first ≤ code && code ≤ r.last

end Range

end Text

end EventJournal
