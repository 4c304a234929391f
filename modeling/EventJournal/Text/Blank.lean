import EventJournal.Text.Range

/-!
# White space

The twenty-five characters that carry the property `White_Space`, and the removal of
them from the two ends of a text. A text of white space alone is *blank*: names and type
tags must not be.
-/

namespace EventJournal

namespace Text

/-- The characters of the property `White_Space`. -/
def blankRanges : List Range :=
  [⟨0x09, 0x0D⟩, ⟨0x20, 0x20⟩, ⟨0x85, 0x85⟩, ⟨0xA0, 0xA0⟩, ⟨0x1680, 0x1680⟩, ⟨0x2000, 0x200A⟩,
   ⟨0x2028, 0x2029⟩, ⟨0x202F, 0x202F⟩, ⟨0x205F, 0x205F⟩, ⟨0x3000, 0x3000⟩]

/-- Whether a character is white space. -/
def isBlank (c : Char) : Bool :=
  Range.covers blankRanges c.toNat

/-- A list of characters without its leading white space. -/
def dropBlanks (cs : List Char) : List Char :=
  cs.dropWhile isBlank

/-- A text without the white space at its two ends. -/
def trim (s : String) : String :=
  String.ofList (dropBlanks (dropBlanks s.toList).reverse).reverse

/-- Whether a text holds white space alone, or nothing. -/
def blank (s : String) : Bool :=
  s.toList.all isBlank

end Text

end EventJournal
