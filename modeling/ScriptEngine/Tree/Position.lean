/-!
This module contains source positions: the file and the line that a statement came from.
-/

namespace ScriptEngine

/--
The place of a statement in its source file. Trees that were built by hand have no file.
-/
structure Position where
  file : Option String
  line : Nat
deriving DecidableEq, Inhabited

namespace Position

/-- The position of generated code. -/
def unknown : Position := ⟨none, 0⟩

/-- The file's name, with a stand-in where there is none. -/
def fileName (pos : Position) : String := pos.file.getD "<unknown>"

def isUnknown (pos : Position) : Bool := pos.file.isNone && pos.line == 0

/-- How a position is written in reports: `file:line`. -/
def text (pos : Position) : String := pos.fileName ++ ":" ++ toString pos.line

end Position

end ScriptEngine
