import ScriptEngine.Tree.Operator
import ScriptEngine.Tree.Position

/-!
This module contains the syntax trees that the evaluator runs: expressions, which have a value, and
statements, which have a position.
-/

namespace ScriptEngine

/-- How a local definition takes its value apart. -/
inductive Shape where
  /-- The whole value goes to the first name. -/
  | single
  /-- The items of an array, in order; with `rest` the last name takes all that is left. -/
  | items (rest : Bool)
  /-- To each name the member of that name. -/
  | members
deriving DecidableEq, Inhabited

mutual

inductive Expr where
  | int (value : Int64)
  | float (value : Float)
  /-- A decimal number, read when it is evaluated. -/
  | decimal (text : String)
  | str (text : String)
  | bytes (data : List UInt8)
  | bool (value : Bool)
  | nil
  | undefined
  /-- The text of a value, the building block of interpolation. -/
  | toStr (operand : Expr)
  | array (items : List ArrayItem)
  | object (items : List ObjectItem)
  | func (code : FuncDef)
  | ident (name : String)
  | member (owner : Expr) (name : String)
  | index (owner : Expr) (key : Expr)
  | slice (container : Expr) (first : Option Expr) (last : Option Expr)
  | call (code : Call)
  | new (cls : Expr) (args : List Arg)
  | binary (op : BinaryOp) (left : Expr) (right : Expr)
  | unary (op : UnaryOp) (operand : Expr)
  /-- A chain of comparisons, each between two neighbours. -/
  | compare (first : Expr) (rest : List Link)
  | assign (target : Target) (value : Expr)
  | define (names : List String) (shape : Shape) (value : Expr)
  /-- Defines every member of an object as a local. -/
  | defineAll (value : Expr)
  | increment (target : Target) (delta : Int64) (before : Bool)
  | arrayOf (head : Comprehension) (item : Expr)
  | objectOf (head : Comprehension) (key : Expr) (value : Expr)
  | when (cases : List WhenCase) (otherwise : Option Expr)
  | whenValue (input : Expr) (cases : List MatchCase) (otherwise : Option Expr)
  /-- Yields a value and releases it when the block ends. -/
  | use (value : Expr) (closer : Closer)
  | load (path : String)

/-- A function literal. With `rest` the last parameter collects the remaining arguments. -/
inductive FuncDef where
  | mk (name : Option String) (params : List String) (rest : Bool) (body : List Stmt)

/-- An item of an array literal, left out when its condition does not hold. -/
inductive ArrayItem where
  | mk (value : Expr) (condition : Option Expr) (spread : Bool)

inductive ObjectItem where
  | entry (key : Expr) (value : Expr)
  | spread (source : Expr)

/-- What an assignment writes to. -/
inductive Target where
  | ident (name : String)
  | member (owner : Expr) (name : String)
  | index (owner : Expr) (key : Expr)

inductive Arg where
  | positional (value : Expr)
  | keyword (name : String) (value : Expr)
  | spread (value : Expr)
  /-- A hole for an argument of a later call; a negative index counts from the end. -/
  | hole (index : Int)

/-- A call; an optional call of something that cannot be called is `undefined`. -/
inductive Call where
  | mk (callee : Expr) (args : List Arg) (isOptional : Bool)

/-- One link of a comparison chain. -/
inductive Link where
  | mk (op : CompareOp) (operand : Expr)

/-- Where a loop draws its items from. -/
inductive Source where
  | iterable (value : Expr)
  | range (first : Expr) (last : Expr) (inclusive : Bool)

/-- The head of a comprehension. -/
inductive Comprehension where
  | mk (value : String) (index : Option String) (source : Source) (filter : Option Expr)

inductive WhenCase where
  | mk (condition : Expr) (action : Expr)

/-- What a value is tested against in `when` and `switch`. -/
inductive Pattern where
  | oneOf (values : List Expr)
  | within (min : Option Expr) (max : Option Expr) (includeMin : Bool) (includeMax : Bool)

inductive MatchCase where
  | mk (pattern : Pattern) (result : Expr)

/-- How the value of a `use` is released. -/
inductive Closer where
  | standard
  | method (name : String)
  | func (code : FuncDef)

inductive Stmt where
  | mk (pos : Position) (kind : StmtKind)

inductive StmtKind where
  | expr (value : Expr)
  | block (body : List Stmt)
  | cond (arms : List IfArm) (otherwise : Option (List Stmt))
  | loop (label : Option String) (start : Option Expr) (check : Option Expr) (next : Option Expr)
      (body : List Stmt)
  | forEach (label : Option String) (index : Option String) (value : String) (source : Source)
      (body : List Stmt)
  | whileDo (label : Option String) (check : Expr) (body : List Stmt)
  | doWhile (label : Option String) (check : Expr) (body : List Stmt)
  | breakLoop (label : Option String)
  | continueLoop (label : Option String)
  | ret (value : Option Expr)
  | switch (value : Expr) (cases : List SwitchCase) (otherwise : Option (List Stmt))
  | export (name : String) (value : Expr)
  | cls (code : ClassDef)
  | extend (exported : Bool) (target : Expr) (items : List MemberDef)
  /-- A call that runs when the function ends. -/
  | defer (code : Call)
  /-- A call that runs when the block ends. -/
  | blockDefer (code : Call)
  | attempt (body : List Stmt) (handler : Option Handler) (cleanup : Option (List Stmt))
  | fallback (stmt : Stmt) (body : List Stmt)
  | assert (condition : Expr) (message : Option Expr)
  | throw (value : Expr)

/--
An arm of an `if`. What `start` defines stays in scope for the arms after it.
-/
inductive IfArm where
  | mk (start : Option Expr) (condition : Expr) (body : List Stmt)

/-- A case of a `switch`; after one that falls through the later cases are tried too. -/
inductive SwitchCase where
  | mk (pattern : Pattern) (body : List Stmt) (fallsThrough : Bool)

/-- A member of a class. Its name is computed. -/
inductive MemberDef where
  | mk (key : Expr) (value : Expr)

inductive ClassDef where
  | mk (name : String) (exported : Bool) (bases : List Expr) (members : List MemberDef)
      (statics : List MemberDef)

inductive Handler where
  | mk (name : String) (body : List Stmt)

end

instance : Inhabited Expr := ⟨.undefined⟩

instance : Inhabited FuncDef := ⟨.mk none [] false []⟩

instance : Inhabited Call := ⟨.mk .undefined [] false⟩

instance : Inhabited ArrayItem := ⟨.mk .undefined none false⟩

instance : Inhabited Target := ⟨.ident ""⟩

instance : Inhabited Arg := ⟨.hole 0⟩

instance : Inhabited Source := ⟨.iterable .undefined⟩

instance : Inhabited Comprehension := ⟨.mk "" none default none⟩

instance : Inhabited Pattern := ⟨.oneOf []⟩

instance : Inhabited Closer := ⟨.standard⟩

instance : Inhabited StmtKind := ⟨.block []⟩

instance : Inhabited Stmt := ⟨.mk .unknown default⟩

namespace FuncDef

def name : FuncDef → Option String
  | .mk name _ _ _ => name

def params : FuncDef → List String
  | .mk _ params _ _ => params

def rest : FuncDef → Bool
  | .mk _ _ rest _ => rest

def body : FuncDef → List Stmt
  | .mk _ _ _ body => body

/-- The name that reports use. -/
def displayName (code : FuncDef) : String := code.name.getD "<anonymous function>"

end FuncDef

namespace Call

def callee : Call → Expr
  | .mk callee _ _ => callee

def args : Call → List Arg
  | .mk _ args _ => args

def isOptional : Call → Bool
  | .mk _ _ isOptional => isOptional

end Call

end ScriptEngine
