import ScriptEngine.Eval.Stmt
import ScriptEngine.Library.Routines

/-!
This module ties the rules of evaluation together, and contains the entry points of a context: a
module that is run to its exports and a block that is run to its value.
-/

namespace ScriptEngine

/-- What the host of an engine provides. -/
structure Host where
  /-- Runs a function of the host with a receiver and arguments. -/
  native : Machine → HostCall → Value → List Value → Run Value
  /-- Loads a module by its name, given the timestamp of the loaded one. -/
  importer : Option (Machine → String → Int64 → Run (Option Module))

/-- A host without functions and modules. -/
def Host.none : Host where
  native _ call _ _ := Run.fail ("no function " ++ call.symbol)
  importer := Option.none

/-- How many levels of evaluation share a stretch of stack. -/
def stackStride : Nat := 512

/--
Evaluates `f ()`. Now and then, as `level` goes down, that happens on a stack of its own, so that
evaluations may be nested as deep as the settings allow.
-/
def onDeepStack {α : Type} (level : Nat) (f : Unit → α) : α :=
  if level % stackStride = 0 then (Task.spawn f Task.Priority.dedicated).get else f ()

/--
The machine that evaluates with all rules, which call back into `m`. It is inlined, so that `m` is
made only when it is called.
-/
@[macro_inline]
def Host.above (host : Host) (fuel : Nat) (m : Machine) : Machine where
  fuel := fuel
  eval e s := onDeepStack fuel fun _ => Run.lettingGo (m.evalExpr e) s
  exec stmt s := onDeepStack fuel fun _ => Run.lettingGo (m.execStmt stmt) s
  invoke callee this args s := onDeepStack fuel fun _ =>
    Run.lettingGo (m.invokeWith (Library.runRoutine m) callee this args) s
  release raised calls := m.runDefers raised calls
  spawn callee args := m.runThread callee args
  native call this args := host.native m call this args
  importer := host.importer.map fun load => fun name modified => load m name modified

/-- The machine that evaluates up to `n` levels deep. -/
def Host.machine (host : Host) : Nat → Machine
  | 0 => .spent
  | n + 1 => host.above n (host.machine n)

namespace Machine

/--
Runs the statements of a module and gives its exports. The calls that were put off until the end of
the module run in any case.
-/
def runModule (m : Machine) (stmts : List Stmt) : Run Value := do
  let result ← Run.capture do
    m.execAll stmts
    Run.finishFlow
  let deferred ← m.runRootDefers (raisedValues result)
  settle result deferred
  let exports ← Run.exports
  Run.setRetVal (.object exports)
  return .object exports

/-- Runs statements in the current context and gives the value of the last one. -/
def evalBlock (m : Machine) (stmts : List Stmt) : Run Value := do
  m.execAll stmts
  Run.finishFlow
  Run.retVal

end Machine

end ScriptEngine
