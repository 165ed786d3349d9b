import CircuitTrace.Script.Instruction

/-! # Lines and moments

A line of a script is a primitive at a level. Consecutive lines of one level are a *moment*, a slice
of the circuit that is added to it by one statement. -/

namespace CircuitTrace

/-- A primitive at its level of the script. -/
structure ScriptLine where
  /-- The primitive. -/
  primitive : Primitive
  /-- The level; neighbours of the same level share a moment. -/
  level : Nat
  deriving DecidableEq

namespace ScriptLine

/-- The line is a comment. -/
def isComment (l : ScriptLine) : Bool := l.primitive.instruction.isComment

/-- The text of a line. -/
def render (l : ScriptLine) : String := l.primitive.render

end ScriptLine

/-- The moments of a list of lines: the longest runs of one level. -/
def moments (lines : List ScriptLine) : List (List ScriptLine) :=
  lines.splitBy fun a b => a.level == b.level

/-- The statement that adds a moment to a collection. A moment that starts with a comment is written
as it is. -/
def renderMoment (collection : String) (moment : List ScriptLine) : String :=
  if (moment.head?.map ScriptLine.isComment).getD false then
    String.intercalate "\n" (moment.map ScriptLine.render)
  else
    collection ++ ".append([" ++ String.intercalate ", " (moment.map ScriptLine.render) ++ "])"

end CircuitTrace
