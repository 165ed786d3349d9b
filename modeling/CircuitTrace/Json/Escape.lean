/-! # Escapes in JSON strings

`escape` writes a text between the quotes of a JSON string. It escapes only what it must: the quote,
the backslash and the control characters below the space, five of them by a letter and the others by
their number. `unescape?` reads what stands between the quotes of any JSON string. It works on
*pieces*, a piece being a character or a code unit that was given by number: two such units in a row
may form one character (`joinPieces?`), and a unit that would be half of one but has no partner is
refused. -/

namespace CircuitTrace.Json

/-- The lower-case digit of a number below sixteen. -/
def hexDigit (n : Nat) : Char := Nat.digitChar n

/-- The value of a hexadecimal digit, of either case. -/
def hexValue? (c : Char) : Option Nat :=
  if '0' ≤ c ∧ c ≤ '9' then some (c.toNat - '0'.toNat)
  else if 'a' ≤ c ∧ c ≤ 'f' then some (c.toNat - 'a'.toNat + 10)
  else if 'A' ≤ c ∧ c ≤ 'F' then some (c.toNat - 'A'.toNat + 10)
  else none

/-- The way a character is written between quotes. -/
def escapeChar (c : Char) : List Char :=
  if c = '\x22' then ['\\', '\x22']
  else if c = '\\' then ['\\', '\\']
  else if c = '\x08' then ['\\', 'b']
  else if c = '\t' then ['\\', 't']
  else if c = '\n' then ['\\', 'n']
  else if c = '\x0c' then ['\\', 'f']
  else if c = '\r' then ['\\', 'r']
  else if c.toNat < 0x20 then
    ['\\', 'u', '0', '0', hexDigit (c.toNat / 16), hexDigit (c.toNat % 16)]
  else [c]

/-- The way a text is written between quotes. -/
def escape (s : List Char) : List Char := s.flatMap escapeChar

/-- A character of a string, or a code unit given by its number. -/
inductive Piece where
  /-- A character, plain or escaped by a letter. -/
  | char (c : Char)
  /-- A code unit of sixteen bits. -/
  | unit (n : Nat)

/-- The character that a letter stands for behind a backslash. -/
def letterEscape? (c : Char) : Option Char :=
  if c = '\x22' ∨ c = '\\' ∨ c = '/' then some c
  else if c = 'b' then some '\x08'
  else if c = 'f' then some '\x0c'
  else if c = 'n' then some '\n'
  else if c = 'r' then some '\r'
  else if c = 't' then some '\t'
  else none

/-- The number written by four hexadecimal digits. -/
def fourHex? (a b c d : Char) : Option Nat :=
  match hexValue? a, hexValue? b, hexValue? c, hexValue? d with
  | some a, some b, some c, some d => some (((a * 16 + b) * 16 + c) * 16 + d)
  | _, _, _, _ => none

/-- The pieces of what stands between quotes. -/
def bodyPieces? : List Char → Option (List Piece)
  | [] => some []
  | '\\' :: 'u' :: a :: b :: c :: d :: s =>
    match fourHex? a b c d, bodyPieces? s with
    | some n, some ps => some (.unit n :: ps)
    | _, _ => none
  | '\\' :: e :: s =>
    match letterEscape? e, bodyPieces? s with
    | some c, some ps => some (.char c :: ps)
    | _, _ => none
  | '\\' :: [] => none
  | c :: s => (bodyPieces? s).map (.char c :: ·)

/-- The unit is the first half of a character. -/
def isHighHalf (n : Nat) : Bool := 0xD800 ≤ n && n ≤ 0xDBFF

/-- The unit is the second half of a character. -/
def isLowHalf (n : Nat) : Bool := 0xDC00 ≤ n && n ≤ 0xDFFF

/-- The text of a list of pieces, unless half a character stands alone in it. -/
def joinPieces? : List Piece → Option (List Char)
  | [] => some []
  | .char c :: ps => (joinPieces? ps).map (c :: ·)
  | .unit n :: .unit m :: ps =>
    if isHighHalf n then
      if isLowHalf m then
        (joinPieces? ps).map (Char.ofNat (0x10000 + (n - 0xD800) * 0x400 + (m - 0xDC00)) :: ·)
      else none
    else if isLowHalf n then none
    else (joinPieces? (.unit m :: ps)).map (Char.ofNat n :: ·)
  | .unit n :: ps =>
    if isHighHalf n || isLowHalf n then none else (joinPieces? ps).map (Char.ofNat n :: ·)

/-- The text of a string, unless half a character stands alone in it. -/
def unescape? (body : List Char) : Option (List Char) := (bodyPieces? body).bind joinPieces?

end CircuitTrace.Json
