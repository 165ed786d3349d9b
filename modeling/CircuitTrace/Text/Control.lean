/-! # Control sequences

A text can hold commands for the screen that shows it: single control characters, and the sequences
that an escape character begins. Where no screen is there, they are left out (`withoutControls`).

What a sequence is depends on the character behind the escape. An opening bracket begins a
*sequence*, which ends with a character from `@` to `~`, and a closing one a *command* for the
operating system, which ends with a bell. Some letters begin a *string* for the device, which ends
with the string terminator; all else ends at once, or after characters below `0`. A new escape
begins a new sequence, and the characters cancel and substitute end it anywhere.

The tab, the line feed, the form feed and the carriage return are control characters that belong to
a text, and are kept. They are also kept inside of a sequence, though not of a command or a string,
and the text behind them is then kept up to the next control character that is not: there the
sequence goes on, if no character beyond ASCII came between. -/

namespace CircuitTrace.Text

/-- The place among the control sequences of a text. -/
inductive ControlState where
  /-- Outside of all sequences. -/
  | outside
  /-- Behind an escape. -/
  | escape
  /-- Behind an escape and characters below `0`. -/
  | shortEscape
  /-- Inside a sequence. -/
  | sequence
  /-- At the beginning of a device string, before its parameters. -/
  | deviceStart
  /-- Among the parameters of a device string. -/
  | deviceParameters
  /-- Behind the parameters of a device string. -/
  | deviceSelector
  /-- Inside a string. -/
  | string
  /-- Inside a command. -/
  | command
  deriving DecidableEq

namespace ControlState

/-- The code of the string terminator. -/
def terminator : UInt8 := 0x9C

/-- The state behind an escape and one more character. -/
def afterEscape (c : Char) : ControlState :=
  if c = '[' then sequence
  else if c = ']' then command
  else if c = 'P' then deviceStart
  else if c = 'X' ∨ c = '^' ∨ c = '_' then string
  else if ' ' ≤ c ∧ c ≤ '/' then shortEscape
  else if '0' ≤ c ∧ c ≤ '~' then outside
  else escape

/-- The state behind a character that is left out. Strings look at the bytes of a text: the
terminator ends them also as a part of another character. -/
def next (s : ControlState) (c : Char) : ControlState :=
  if c = '\x1b' then escape
  else if c = '\x18' ∨ c = '\x1a' then outside
  else match s with
    | outside => outside
    | escape => afterEscape c
    | shortEscape => if '0' ≤ c ∧ c ≤ '~' then outside else shortEscape
    | sequence => if '@' ≤ c ∧ c ≤ '~' then outside else sequence
    | deviceStart =>
      if ' ' ≤ c ∧ c ≤ '/' then deviceSelector
      else if '0' ≤ c ∧ c ≤ '?' then deviceParameters
      else if '@' ≤ c ∧ c ≤ '~' then string
      else deviceStart
    | deviceParameters =>
      if ' ' ≤ c ∧ c ≤ '/' then deviceSelector
      else if '<' ≤ c ∧ c ≤ '~' then string
      else deviceParameters
    | deviceSelector => if '0' ≤ c ∧ c ≤ '~' then string else deviceSelector
    | string => if terminator ∈ String.utf8EncodeChar c then outside else string
    | command => if c = '\x07' then outside else command

/-- The states in which the control characters of a text are kept. -/
def keepsLayout : ControlState → Bool
  | outside | escape | shortEscape | sequence => true
  | deviceStart | deviceParameters | deviceSelector | string | command => false

end ControlState

/-- The control characters that belong to a text. -/
def isLayout (c : Char) : Bool := c = '\t' || c = '\n' || c = '\x0c' || c = '\r'

/-- The characters that are kept outside of sequences. -/
def isPlain (c : Char) : Bool := isLayout c || (' ' ≤ c && c != '\x7f')

/-- The characters that are kept of a text that begins in a state. With `kept` the text before was
kept, though the state is that of a sequence. -/
def plainFrom (kept : Bool) (s : ControlState) : List Char → List Char
  | [] => []
  | c :: cs =>
    if kept || s = .outside then
      if isPlain c then c :: plainFrom true (if c ≤ '\x7f' then s else .outside) cs
      else plainFrom false (s.next c) cs
    else if s.keepsLayout && isLayout c then c :: plainFrom true s cs
    else plainFrom false (s.next c) cs

/-- A text without its control sequences and control characters. -/
def withoutControls (s : String) : String := String.ofList (plainFrom false .outside s.toList)

end CircuitTrace.Text
