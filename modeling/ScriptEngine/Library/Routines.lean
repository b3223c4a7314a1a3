import ScriptEngine.Library.Methods

/-!
This module contains the running of all functions that are not written in the script.
-/

namespace ScriptEngine

namespace Library

/-- Checks a value: a function has to say yes to it, anything else has to be equal to it. -/
def checkMust (m : Machine) (this : Value) : List Value → Run Unit
  | [] => return
  | check :: checks => do
    let ok ← do
      if ← Run.isCallable check then
        m.isTruthy (← m.invoke check .undefined [this])
      else
        m.valuesEqual this check
    if ok then checkMust m this checks else Run.raise (.assertion "'must' failed")

/-- Initialises an object as each of the bases of its class does. -/
def initBases (m : Machine) (handle : Handle) (args : List Value) : List TypeRef → Run Unit
  | [] => return
  | base :: bases => do
    match ← Run.typeMember? base "__init__" with
    | some init =>
      if init.isCallableKind then
        let view ← Run.alloc (·.viewAs handle base)
        let _ ← m.invoke init (.object view) args
    | none => pure ()
    initBases m handle args bases

/-- The receiver of a method of a class that the host made. -/
def expectInstance (this : Value) : Run Handle :=
  match this with
  | .object handle => return handle
  | other => Run.mismatch "an instance as receiver" other

/-- The end of an iteration. -/
def endOfIteration : Run Value := Run.newArray #[.undefined, .bool false]

/--
A step of an iterator of the host. The host gives an array with the next item, or anything else at
the end, and is not asked again after that.
-/
def runStep (m : Machine) (next : HostCall) (ended : ArrayRef) : Run Value := do
  if ((← Run.getHeap).items ended).isEmpty then
    let answer ← m.native next .undefined []
    match (← Run.getHeap).items? answer with
    | some #[item] => Run.newArray #[item, .bool true]
    | _ =>
      Run.modifyHeap (·.modifyItems ended (·.push (.bool true)))
      endOfIteration
  else
    endOfIteration

/-- Runs a function that is not written in the script. -/
def runRoutine (m : Machine) (native : Native) (this : Value) (args : List Value) : Run Value := do
  match native.routine with
  | .builtin function => runBuiltin m function args
  | .method method => runMethod m method this args
  | .must =>
    checkMust m this args
    return this
  | .notNil => if this.isNilOrUndefined then Run.mismatch "a non-nil value" this else return this
  | .partialCall callee pending isOptional => m.applyArgs callee pending args isOptional
  | .superInit bases =>
    match this with
    | .object handle => initBases m handle args bases
    | _ => pure ()
    return .undefined
  | .join => Run.joinThread (← expectInstance this)
  | .joinError => Run.threadError (← expectInstance this)
  | .iterator step => return step
  | .step next ended => runStep m next ended
  | .host call => m.native call this args
  | .hostMethod call =>
    let _ ← expectInstance this
    m.native call this args
  | .hostInit call =>
    let _ ← expectInstance this
    let _ ← m.native call this args
    return .undefined

end Library

end ScriptEngine
