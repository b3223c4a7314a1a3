import ScriptEngine.Eval.Class
import ScriptEngine.Eval.Expr

/-!
This module contains the running of statements. A statement leaves its value in the context, and a
signal if it leaves its block, its loop or its function.
-/

namespace ScriptEngine

namespace Run

/--
Takes a signal that is meant for the loop with this label, and says whether the loop has to end. A
signal without a label is meant for the innermost loop.
-/
def leavesLoop (label : Option String) : Run Bool := do
  match ← flow with
  | .normal => return false
  | .ret => return true
  | .jump kind target =>
    if target.isNone || target == label then
      setFlow .normal
      return kind == .breakLoop
    else
      return true

end Run

namespace Machine

/-- Whether the condition of a loop holds. A loop without one goes on. -/
def checkHolds (m : Machine) : Option Expr → Run Bool
  | some check => do m.isTruthy (← m.eval check)
  | none => return true

/-- Runs the body of a loop as long as its condition holds. -/
def runLoop (m : Machine) (label : Option String) (check next : Option Expr) (body : List Stmt) :
    Nat → Run Unit
  | 0 => Run.exhausted
  | fuel + 1 => do
    if ← m.checkHolds check then
      m.execBlock body
      if !(← Run.leavesLoop label) then
        let _ ← m.evalOptional next
        m.runLoop label check next body fuel

/-- Runs a `for` with a start, a condition and a step. -/
def execLoop (m : Machine) (label : Option String) (start check next : Option Expr) (body : List Stmt) :
    Run Unit :=
  m.withBlock do
    let _ ← m.evalOptional start
    m.runLoop label check next body m.fuel

/-- Runs the body of a loop as long as its condition holds, whose value is held on to meanwhile. -/
def runWhile (m : Machine) (label : Option String) (check : Expr) (body : List Stmt) : Nat → Run Unit
  | 0 => Run.exhausted
  | fuel + 1 => do
    let again ← Run.lettingGo do
      if ← m.isTruthy (← m.evalHeld check) then
        m.execBlock body
        return !(← Run.leavesLoop label)
      else
        return false
    if again then m.runWhile label check body fuel

/-- Runs the body of a loop, and then as long as its condition holds. -/
def runDoWhile (m : Machine) (label : Option String) (check : Expr) (body : List Stmt) : Nat → Run Unit
  | 0 => Run.exhausted
  | fuel + 1 => do
    m.execBlock body
    if !(← Run.leavesLoop label) then
      if ← m.checkHolds (some check) then
        m.runDoWhile label check body fuel

/-- Runs the body of a loop for every item. Its variables live in a block around the whole loop. -/
def execForEach (m : Machine) (label index : Option String) (value : String) (source : Source)
    (body : List Stmt) : Run Unit :=
  let visit := fun (_ : Unit) (i item : Value) => (do
    bindItem value index i item
    m.execBlock body
    if ← Run.leavesLoop label then return .stop () else return .next () : Run (Visit Unit))
  m.withBlock (m.iterate source visit ())

def execOptional (m : Machine) : Option (List Stmt) → Run Unit
  | some body => m.execBlock body
  | none => return

/-- Runs the first arm whose condition holds. What an arm defines first is seen by the later ones. -/
def execIf (m : Machine) (otherwise : Option (List Stmt)) : List IfArm → Run Unit
  | [] => m.execOptional otherwise
  | .mk start condition body :: arms =>
    let arm := do
      if ← m.isTruthy (← m.evalHeld condition) then m.execBlock body else m.execIf otherwise arms
    match start with
    | none => arm
    | some start => m.withBlock do
      let _ ← m.eval start
      arm

/-- Runs the cases that a value matches, up to one that does not fall through. -/
def execSwitch (m : Machine) (input : Value) (otherwise : Option (List Stmt)) : List SwitchCase → Run Unit
  | [] => m.execOptional otherwise
  | .mk pattern body fallsThrough :: cases => do
    if ← m.valueMatches pattern input then
      m.execBlock body
      if fallsThrough && (← Run.flow).isNormal then m.execSwitch input otherwise cases
    else
      m.execSwitch input otherwise cases

/-- Puts a call off. Its callee and its arguments are evaluated at once. -/
def execDefer (m : Machine) (code : Call) (untilBlockEnds : Bool) : Run Unit := do
  let callee ← m.evalHeld code.callee
  if ← Run.isCallable callee then
    let args ← m.evalArgs code.args
    let args ← m.placeArgs callee args []
    if untilBlockEnds then Run.addBlockDefer callee args code.isOptional else Run.addDefer callee args
  else if code.isOptional then
    return
  else
    Run.notCallable callee

/-- Runs a block with a name bound to an exception. -/
def handleWith (m : Machine) (name : String) (e : Error) (body : List Stmt) : Run Unit := do
  Run.holdAll e.payload.toList
  let exception ← Run.exceptionValue e
  m.withBlock do
    Run.forceLocal name exception
    m.execAll body

/-- Runs a body, and a handler if it raises an error that can be handled. -/
def execGuarded (m : Machine) (body : Run Unit) (handler : Option Handler) : Run Unit := do
  match ← Run.capture body, handler with
  | .error e, some (.mk name stmts) => if e.isFatal then Run.raiseError e else m.handleWith name e stmts
  | result, _ => Run.ofCaptured result

/--
Runs a cleanup after a body that ended with `result`. Its error counts more than that of the body, and
a signal that it raises replaces whatever the body ended with; otherwise the body's end stays as it
was.
-/
def cleanUp (m : Machine) (cleanup : List Stmt) (result : Except Error Unit) : Run Unit := do
  let retVal ← Run.retVal
  let flow ← Run.takeFlow
  Run.hold retVal
  Run.holdAll (raisedValues result)
  m.execBlock cleanup
  if (← Run.flow).isNormal then
    Run.setFlow flow
    Run.setRetVal retVal
    Run.ofCaptured result

/-- Runs `try`. The cleanup always runs. -/
def execAttempt (m : Machine) (body : List Stmt) (handler : Option Handler) (cleanup : Option (List Stmt)) :
    Run Unit := do
  let result ← Run.capture (Run.lettingGo (m.execGuarded (m.execBlock body) handler))
  match cleanup with
  | none => Run.ofCaptured result
  | some cleanup => m.cleanUp cleanup result

/-- Runs an assertion. -/
def execAssert (m : Machine) (condition : Expr) (message : Option Expr) : Run Unit := do
  if ← m.isTruthy (← m.evalHeld condition) then
    return
  else
    match message with
    | some message => Run.raise (.assertion (← m.stringify (← m.eval message)))
    | none => Run.raise (.assertion "")

/-- Raises a value. -/
def execThrow (m : Machine) (value : Expr) : Run Unit := do
  let value ← m.evalHeld value
  let message ← m.stringify value
  Run.raiseError (.thrown message value)

/-- Runs a statement without regard to its position, one level deep. -/
def execKind (m : Machine) (kind : StmtKind) : Run Unit := do
  match kind with
  | .expr value => Run.setRetVal (← m.eval value)
  | .block body => m.execBlock body
  | .cond arms otherwise => m.execIf otherwise arms
  | .loop label start check next body => m.execLoop label start check next body
  | .forEach label index value source body => m.execForEach label index value source body
  | .whileDo label check body => m.runWhile label check body m.fuel
  | .doWhile label check body => m.runDoWhile label check body m.fuel
  | .breakLoop label => Run.setFlow (.jump .breakLoop label)
  | .continueLoop label => Run.setFlow (.jump .continueLoop label)
  | .ret value =>
    Run.setRetVal (← m.evalOptional value)
    Run.setFlow .ret
  | .switch value cases otherwise => m.execSwitch (← m.evalHeld value) otherwise cases
  | .export name value =>
    Run.checkExport true
    let value ← m.eval value
    Run.setExport name value
    Run.setRetVal value
  | .cls code => m.execClass code
  | .extend exported target items => m.execExtend exported target items
  | .defer code => m.execDefer code false
  | .blockDefer code => m.execDefer code true
  | .attempt body handler cleanup => m.execAttempt body handler cleanup
  | .fallback stmt body => m.execGuarded (m.exec stmt) (some (.mk "__err__" body))
  | .assert condition message => m.execAssert condition message
  | .throw value => m.execThrow value

/-- Runs a statement. An error that has no position yet gets the one of the statement. -/
def execStmt (m : Machine) (stmt : Stmt) : Run Unit :=
  match stmt with
  | .mk pos kind => do
    Run.setPosition pos
    Run.locating (m.execKind kind)

end Machine

end ScriptEngine
