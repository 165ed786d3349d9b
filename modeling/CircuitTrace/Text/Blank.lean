import CircuitTrace.Text.CharRange

/-! # Blank characters

The *blank* characters are those with the Unicode property White_Space. `trim` takes them away at
both ends of a text; what is left starts and ends with a character that is not blank, unless it is
empty. -/

namespace CircuitTrace.Text

/-- The characters with the property White_Space. -/
def blankChars : List CharRange :=
  [(0x9, 0xD), (0x20, 0x20), (0x85, 0x85), (0xA0, 0xA0), (0x1680, 0x1680), (0x2000, 0x200A),
    (0x2028, 0x2029), (0x202F, 0x202F), (0x205F, 0x205F), (0x3000, 0x3000)]

/-- A character is blank if it has the property White_Space. -/
def isBlank (c : Char) : Bool := inRanges blankChars c

/-- The text without its leading blanks. -/
def trimLeft (s : List Char) : List Char := s.dropWhile isBlank

/-- The text without its trailing blanks. -/
def trimRight (s : List Char) : List Char := (s.reverse.dropWhile isBlank).reverse

/-- The text without the blanks at its two ends. -/
def trim (s : List Char) : List Char := trimRight (trimLeft s)

end CircuitTrace.Text
