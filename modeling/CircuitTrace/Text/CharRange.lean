/-! # Classes of characters

A class of characters is a list of ranges of code points, both ends included, and membership
(`inRanges`) is decided by looking through the list. The classes of this library are the blank
characters, the word characters, the decimal digits and the characters that are quoted by number. -/

namespace CircuitTrace.Text

/-- A range of code points, given by its least and its greatest member. -/
abbrev CharRange := Nat × Nat

/-- The character lies in one of the ranges. -/
def inRanges (ranges : List CharRange) (c : Char) : Bool :=
  ranges.any fun r => r.1 ≤ c.toNat && c.toNat ≤ r.2

end CircuitTrace.Text
