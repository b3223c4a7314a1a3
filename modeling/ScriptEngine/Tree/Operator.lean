/-!
This module contains the operators of the language, with the symbol each is written as, the member
that overrides it and the verb that reports use for it.
-/

namespace ScriptEngine

inductive BinaryOp where
  | add | sub | mul | div | mod | pow
  | bitAnd | bitOr | bitXor | shl | shr
  | and | or
  | coalesce | is
deriving DecidableEq, Inhabited

namespace BinaryOp

def all : List BinaryOp :=
  [add, sub, mul, div, mod, pow, bitAnd, bitOr, bitXor, shl, shr, and, or, coalesce, is]

def symbol : BinaryOp → String
  | add => "+"
  | sub => "-"
  | mul => "*"
  | div => "/"
  | mod => "%"
  | pow => "**"
  | bitAnd => "&"
  | bitOr => "|"
  | bitXor => "^"
  | shl => "<<"
  | shr => ">>"
  | and => "&&"
  | or => "||"
  | coalesce => "??"
  | is => "is"

/--
The member of the left operand that overrides the operator. `??` has none.
-/
def hook? : BinaryOp → Option String
  | add => some "__add__"
  | sub => some "__sub__"
  | mul => some "__mul__"
  | div => some "__div__"
  | mod => some "__mod__"
  | pow => some "__pow__"
  | bitAnd => some "__bitAnd__"
  | bitOr => some "__bitOr__"
  | bitXor => some "__bitXor__"
  | shl => some "__shl__"
  | shr => some "__shr__"
  | and => some "__and__"
  | or => some "__or__"
  | is => some "__is__"
  | coalesce => none

/-- The verb of the report that two operands do not fit. -/
def verb : BinaryOp → String
  | add => "plus"
  | sub => "minus"
  | mul => "times"
  | div => "div"
  | mod => "mod"
  | pow => "pow"
  | bitAnd => "bit-and"
  | bitOr => "bit-or"
  | bitXor => "bit-xor"
  | shl => "shift-left"
  | shr => "shift-right"
  | and => "and"
  | or => "or"
  | coalesce => "fallback"
  | is => "type-test"

/-- Whether the right operand is evaluated only when it is needed. -/
def isShortCircuit (op : BinaryOp) : Bool := op == and || op == or

/-- The operator that is written as `text`. -/
def ofSymbol? (text : String) : Option BinaryOp := all.find? (·.symbol == text)

end BinaryOp

/-- Comparison operators. They chain, as in `a < b <= c`. -/
inductive CompareOp where
  | eq | ne | lt | le | gt | ge
deriving DecidableEq, Inhabited

namespace CompareOp

def all : List CompareOp := [eq, ne, lt, le, gt, ge]

def symbol : CompareOp → String
  | eq => "=="
  | ne => "!="
  | lt => "<"
  | le => "<="
  | gt => ">"
  | ge => ">="

/-- The member of the left operand that overrides the operator. -/
def hook : CompareOp → String
  | eq => "__eq__"
  | ne => "__ne__"
  | lt => "__lt__"
  | le => "__le__"
  | gt => "__gt__"
  | ge => "__ge__"

/-- The operator that is written as `text`. -/
def ofSymbol? (text : String) : Option CompareOp := all.find? (·.symbol == text)

end CompareOp

inductive UnaryOp where
  | neg | not | bitNot
deriving DecidableEq, Inhabited

namespace UnaryOp

def all : List UnaryOp := [neg, not, bitNot]

def symbol : UnaryOp → String
  | neg => "-"
  | not => "!"
  | bitNot => "~"

/-- The operator that is written as `text`. -/
def ofSymbol? (text : String) : Option UnaryOp := all.find? (·.symbol == text)

end UnaryOp

end ScriptEngine
