import ScriptEngine.Eval.Access

/-!
This module contains the frames that blocks and calls run in. A frame is left on every way out of
its body, and the calls that were put off until then run at that point, the last one first.
-/

namespace ScriptEngine

namespace Machine

variable {α : Type}

def runDefers.go (m : Machine) (first : Option Error) : List Deferred → Run (Option Error)
  | [] => return first
  | call :: calls => do
    if ← Run.isCallable call.callee then
      let result ← Run.capture <| Run.lettingGo do
        Run.hold call.callee
        Run.keep (.calls calls)
        m.invoke call.callee .undefined call.args
      Run.setFlow .normal
      match first, result with
      | none, .error e => go m (some e) calls
      | _, _ => go m first calls
    else if call.isOptional || first.isSome then
      go m first calls
    else
      go m (some (← Run.located (.ofCause .deferNotCallable))) calls

/-- The value that was raised if a computation failed. -/
def raisedValues : Except Error α → List Value
  | .ok _ => []
  | .error e => e.payload.toList

/--
Runs calls that were put off, the last one first, and gives the first error. Every call starts
without a signal; the signal and the value of the statement before them stay as they were, and
`raised` is held on to meanwhile.
-/
def runDefers (m : Machine) (raised : List Value) (calls : List Deferred) : Run (Option Error) := do
  if calls.isEmpty then
    return none
  let flow ← Run.takeFlow
  let retVal ← Run.retVal
  let first ← Run.lettingGo do
    Run.hold retVal
    Run.holdAll raised
    runDefers.go m none calls
  Run.setFlow flow
  Run.setRetVal retVal
  return first

/-- Of two errors that of the body counts. -/
def settle (result : Except Error α) (deferred : Option Error) : Run α :=
  match result, deferred with
  | .error e, _ => Run.raiseError e
  | .ok _, some e => Run.raiseError e
  | .ok a, none => return a

/-- Enters a frame at the current position. -/
def enterFrame (kind : FrameKind) (scope : ScopeRef) : Run Unit :=
  Run.modifyStack fun s => s.push ⟨kind, scope, s.top.position, []⟩

/-- Leaves the innermost frame and gives the calls that were put off until then. -/
def leaveFrame : Run (List Deferred) := do
  let calls := (← Run.getStack).top.defers
  Run.modifyStack (·.pop)
  return calls

/-- Runs a body in a frame of its own. -/
def withFrame (m : Machine) (kind : FrameKind) (scope : ScopeRef) (body : Run α) : Run α := do
  enterFrame kind scope
  let result ← Run.capture body
  let calls ← leaveFrame
  let deferred ← m.release (raisedValues result) calls
  settle result deferred

/-- Runs a body in a block inside the current scope. -/
def withBlock (m : Machine) (body : Run α) : Run α := do
  let outer ← Run.currentScope
  let scope ← Run.alloc (·.newScope (some outer))
  m.withFrame .block scope body

/-- Runs the calls that were put off until the end of the module. -/
def runRootDefers (m : Machine) (raised : List Value) : Run (Option Error) := do
  let (calls, stack) := (← Run.getStack).takeRootDefers
  Run.modifyStack fun _ => stack
  m.release raised calls

/-- Runs statements until one raises a signal. -/
def execAll (m : Machine) : List Stmt → Run Unit
  | [] => return
  | stmt :: stmts => do
    m.exec stmt
    if (← Run.flow).isNormal then m.execAll stmts

/-- Runs statements in a block. -/
def execBlock (m : Machine) (stmts : List Stmt) : Run Unit := m.withBlock (m.execAll stmts)

end Machine

end ScriptEngine
