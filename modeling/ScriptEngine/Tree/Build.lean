import ScriptEngine.Tree.Basic

/-!
This module contains the ways to assemble trees out of smaller ones.
-/

namespace ScriptEngine

namespace Arg

def isHole : Arg → Bool
  | .hole _ => true
  | _ => false

end Arg

/-- Whether the call leaves holes, so that it makes a function instead of calling one. -/
def Call.isBind (code : Call) : Bool := code.args.any Arg.isHole

/-- The expression that reads what `target` writes. -/
def Target.toExpr : Target → Expr
  | .ident name => .ident name
  | .member owner name => .member owner name
  | .index owner key => .index owner key

namespace Expr

def interpolate.go (acc : Expr) : List Expr → Expr
  | [] => acc
  | part :: parts => go (.binary .add acc (.toStr part)) parts

/-- The text of the parts one after another. -/
def interpolate : List Expr → Expr
  | [] => .str ""
  | part :: parts => interpolate.go (.toStr part) parts

end Expr

namespace Stmt

/-- A statement without a position. -/
def ofKind (kind : StmtKind) : Stmt := .mk .unknown kind

/-- The same statement at another position. -/
def moveTo (pos : Position) : Stmt → Stmt
  | .mk _ kind => .mk pos kind

def expr (value : Expr) : Stmt := ofKind (.expr value)

/-- Defines one local. -/
def var (name : String) (value : Expr) : Stmt := expr (.define [name] .single value)

/-- Defines a function under its own name. -/
def funcDecl (name : String) (params : List String) (body : List Stmt) : Stmt :=
  var name (.func (.mk (some name) params false body))

def assign (target : Target) (value : Expr) : Stmt := expr (.assign target value)

end Stmt

end ScriptEngine
