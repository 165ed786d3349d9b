import CircuitTrace.Json.Escape

/-! # The tokens of a JSON text

`tokens` cuts a text into brackets, commas, colons, words, numbers and strings, and drops the white
space between them (space, tab, line feed and carriage return). Numbers and strings keep the way
they are written. Where the text is no token the last token is a `fault`, and what comes after it is
not looked at.

The text is read in one pass, character by character; `Lexing` is what is known of the token under
way. A number is the only token whose end shows in the character after it. -/

namespace CircuitTrace.Json

/-- A token of a JSON text. -/
inductive Token where
  /-- The opening bracket of an array. -/
  | openArray
  /-- The closing bracket of an array. -/
  | closeArray
  /-- The opening brace of an object. -/
  | openObject
  /-- The closing brace of an object. -/
  | closeObject
  /-- A comma. -/
  | comma
  /-- A colon. -/
  | colon
  /-- The word `null`. -/
  | null
  /-- One of the words `true` and `false`. -/
  | bool (b : Bool)
  /-- A number, given by its lexeme. -/
  | num (lexeme : List Char)
  /-- A string, given by the text between its quotes. -/
  | str (body : List Char)
  /-- The text is no token from here on. -/
  | fault
  deriving DecidableEq

/-- How far a number has been read. -/
inductive NumberPart where
  /-- The sign alone. -/
  | sign
  /-- The integer zero, to which no digit can be added. -/
  | zero
  /-- An integer that starts with another digit. -/
  | integer
  /-- The point, after which a digit is due. -/
  | point
  /-- Digits after the point. -/
  | fraction
  /-- The letter of the exponent, after which a sign or a digit is due. -/
  | exponentMark
  /-- The sign of the exponent, after which a digit is due. -/
  | exponentSign
  /-- Digits of the exponent. -/
  | exponent
  deriving DecidableEq

/-- A number may end here. -/
def NumberPart.complete : NumberPart → Bool
  | .zero | .integer | .fraction | .exponent => true
  | .sign | .point | .exponentMark | .exponentSign => false

/-- The character is an ASCII digit. -/
def isDigit (c : Char) : Bool := '0' ≤ c && c ≤ '9'

/-- How far the number has been read after one more character, if it takes that character. -/
def NumberPart.next? (part : NumberPart) (c : Char) : Option NumberPart :=
  match part with
  | .sign => if c = '0' then some .zero else if isDigit c then some .integer else none
  | .zero => afterInteger c
  | .integer => if isDigit c then some .integer else afterInteger c
  | .point => if isDigit c then some .fraction else none
  | .fraction =>
    if isDigit c then some .fraction
    else if c = 'e' ∨ c = 'E' then some .exponentMark
    else none
  | .exponentMark =>
    if c = '+' ∨ c = '-' then some .exponentSign else if isDigit c then some .exponent else none
  | .exponentSign => if isDigit c then some .exponent else none
  | .exponent => if isDigit c then some .exponent else none
where
  /-- What may follow the digits of the integer. -/
  afterInteger (c : Char) : Option NumberPart :=
    if c = '.' then some .point else if c = 'e' ∨ c = 'E' then some .exponentMark else none

/-- What is known of the token under way. -/
inductive Lexing where
  /-- No token is under way. -/
  | between
  /-- A word, of which `left` is still due. -/
  | word (left : List Char) (token : Token)
  /-- A number, read so far as `lexeme`, backwards. -/
  | number (part : NumberPart) (lexeme : List Char)
  /-- A string, read so far as `body`, backwards. -/
  | string (body : List Char)
  /-- A string, just behind a backslash. -/
  | stringEscape (body : List Char)
  /-- A string, in a number of which `due` and one more digits are due. -/
  | stringHex (due : Nat) (body : List Char)

/-- The character is white space between tokens. -/
def isSpace (c : Char) : Bool := c = ' ' || c = '\t' || c = '\n' || c = '\r'

/-- The token or the start of a token that a character is when no token is under way. -/
def startToken (c : Char) : Option (Token ⊕ Lexing) :=
  if c = '[' then some (.inl .openArray)
  else if c = ']' then some (.inl .closeArray)
  else if c = '\x7b' then some (.inl .openObject)
  else if c = '\x7d' then some (.inl .closeObject)
  else if c = ',' then some (.inl .comma)
  else if c = ':' then some (.inl .colon)
  else if c = '\x22' then some (.inr (.string []))
  else if c = '-' then some (.inr (.number .sign [c]))
  else if c = '0' then some (.inr (.number .zero [c]))
  else if isDigit c then some (.inr (.number .integer [c]))
  else if c = 'n' then some (.inr (.word ['u', 'l', 'l'] .null))
  else if c = 't' then some (.inr (.word ['r', 'u', 'e'] (.bool true)))
  else if c = 'f' then some (.inr (.word ['a', 'l', 's', 'e'] (.bool false)))
  else if isSpace c then some (.inr .between)
  else none

/-- The tokens of the rest of a text, when a token may be under way. -/
def tokensFrom : Lexing → List Char → List Token
  | .between, [] => []
  | .number part lexeme, [] => if part.complete then [.num lexeme.reverse] else [.fault]
  | _, [] => [.fault]
  | .between, c :: s =>
    match startToken c with
    | some (.inl t) => t :: tokensFrom .between s
    | some (.inr l) => tokensFrom l s
    | none => [.fault]
  | .word left token, c :: s =>
    match left with
    | [d] => if c = d then token :: tokensFrom .between s else [.fault]
    | d :: left => if c = d then tokensFrom (.word left token) s else [.fault]
    | [] => [.fault]
  | .number part lexeme, c :: s =>
    match part.next? c with
    | some part => tokensFrom (.number part (c :: lexeme)) s
    | none =>
      if part.complete then
        .num lexeme.reverse ::
          match startToken c with
          | some (.inl t) => t :: tokensFrom .between s
          | some (.inr l) => tokensFrom l s
          | none => [.fault]
      else [.fault]
  | .string body, c :: s =>
    if c = '\x22' then .str body.reverse :: tokensFrom .between s
    else if c = '\\' then tokensFrom (.stringEscape (c :: body)) s
    else if c.toNat < 0x20 then [.fault]
    else tokensFrom (.string (c :: body)) s
  | .stringEscape body, c :: s =>
    if c = 'u' then tokensFrom (.stringHex 3 (c :: body)) s
    else if (letterEscape? c).isSome then tokensFrom (.string (c :: body)) s
    else [.fault]
  | .stringHex due body, c :: s =>
    if (hexValue? c).isSome then
      match due with
      | 0 => tokensFrom (.string (c :: body)) s
      | due + 1 => tokensFrom (.stringHex due (c :: body)) s
    else [.fault]

/-- The tokens of a text. -/
def tokens (s : List Char) : List Token := tokensFrom .between s

end CircuitTrace.Json
