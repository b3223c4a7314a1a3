import ScriptEngine.Heap.Basic
import ScriptEngine.Number.Decimal.Text
import ScriptEngine.Text.ByteText

/-!
This module contains the texts of values without their hooks: the one that scripts see and the one
of diagnostics. A container that contains itself has no text, so both stop at a given nesting depth.
-/

namespace ScriptEngine

namespace Heap

/-- Parts between brackets, with commas. -/
def listText (parts : List String) : String := "[" ++ ", ".intercalate parts ++ "]"

/-- Parts between braces, with commas. -/
def recordText (parts : List String) : String := "\x7b" ++ ", ".intercalate parts ++ "\x7d"

def boolText (b : Bool) : String := if b then "true" else "false"

/-- The text of a value, if it is nested less than `depth` deep. -/
def display? (h : Heap) : Nat → Value → Option String
  | 0, _ => none
  | depth + 1, value =>
    match value with
    | .undefined => some "undefined"
    | .nil => some "nil"
    | .bool b => some (boolText b)
    | .int i => some (Word.text i)
    | .float f => some (FloatText.plain f)
    | .decimal d => some d.text
    | .str s => some s
    | .bytes ref => some (ByteText.quoted (h.data ref).toList)
    | .array ref => ((h.items ref).toList.mapM fun item => h.display? depth item).map listText
    | .object handle =>
      ((h.members handle).entries.mapM fun e =>
        (h.display? depth e.2).map fun text => e.1 ++ ": " ++ text).map recordText
    | .func ref =>
      match (h.closure ref).code.name with
      | some name => some ("<func " ++ name ++ ">")
      | none => some "<anonymous function>"
    | .native ref => some ("<builtin " ++ (h.native ref).name ++ ">")
    | .bound _ _ callee => (h.display? depth callee).map fun text => "<bound method " ++ text ++ ">"
    | .type ref => some ("<type " ++ h.types.name ref ++ ">")
    | .host ref => some ("<host " ++ (h.host ref).name ++ ">")

/-- The diagnostic text of a value, if it is nested less than `depth` deep. -/
def diagnostic? (h : Heap) : Nat → Value → Option String
  | 0, _ => none
  | depth + 1, value =>
    match value with
    | .undefined => some "Undefined"
    | .nil => some "Nil"
    | .bool b => some ("Bool(" ++ boolText b ++ ")")
    | .int i => some ("Int(" ++ Word.text i ++ ")")
    | .float f => some ("Float(" ++ FloatText.diagnostic f ++ ")")
    | .decimal d => some ("BigNum(" ++ d.text ++ ")")
    | .str s => some ("Str(" ++ Text.quoted s ++ ")")
    | .bytes ref => some ("Bytes(" ++ ByteText.quoted (h.data ref).toList ++ ")")
    | .array ref => ((h.items ref).toList.mapM fun item => h.diagnostic? depth item).map listText
    | .object handle =>
      ((h.members handle).entries.mapM fun e =>
        (h.diagnostic? depth e.2).map fun text => Text.quoted e.1 ++ ": " ++ text).map fun parts =>
          "Object(" ++ recordText parts ++ ")"
    | .func ref => some ("<func " ++ (h.closure ref).code.displayName ++ ">")
    | .native ref => some ("<builtin " ++ (h.native ref).name ++ ">")
    | .bound _ _ callee => (h.diagnostic? depth callee).map fun text => "<bound " ++ text ++ ">"
    | .type ref => some ("<type " ++ h.types.name ref ++ "#" ++ toString (h.types.id ref) ++ ">")
    | .host ref => some ("<host " ++ (h.host ref).name ++ ">")

/-- The diagnostic text of an object's members. -/
def objectDiagnostic? (h : Heap) (depth : Nat) (handle : Handle) : Option String :=
  ((h.members handle).entries.mapM fun e =>
    (h.diagnostic? depth e.2).map fun text => Text.quoted e.1 ++ ": " ++ text).map recordText

end Heap

end ScriptEngine
