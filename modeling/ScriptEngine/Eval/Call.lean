import ScriptEngine.Eval.Args
import ScriptEngine.Eval.Frame
import ScriptEngine.State.Roots
import ScriptEngine.Tree.Build

/-!
This module contains calls: of functions of the script, of types, which makes an instance, and of
objects with a `__call__`.
-/

namespace ScriptEngine

namespace Run

/-- Raises an error if there are as many active calls as there may be. -/
def checkDepth : Run Unit := do
  let limit := (← getSettings).maxDepth
  if limit ≤ (← getContext).depth then
    raise (.tooManyCalls limit)

/-- One more call is active. -/
def enterCall : Run Unit := modifyContext fun c => { c with depth := c.depth + 1 }

/-- One call less is active than now. What the depth was before the call is not looked at. -/
def leaveCall : Run Unit := modifyContext fun c => { c with depth := c.depth - 1 }

/-- Runs a computation as one more active call. -/
def deeper {α : Type} (act : Run α) : Run α := do
  enterCall
  let result ← capture act
  leaveCall
  ofCaptured result

def notCallable {α : Type} (value : Value) : Run α := do
  raise (.notCallable ((← getHeap).typeName value))

/-- Binds a name in a scope that is being filled. -/
def bindIn (scope : ScopeRef) (name : String) (value : Value) : Run Unit :=
  modifyHeap fun h => { h with scopes := h.scopes.force scope name value }

/-- Binds the parameters of a function. Those without an argument are `undefined`. -/
def bindParams (scope : ScopeRef) (rest : Bool) : List String → List Value → Run Unit
  | [], _ => return
  | [name], args => do
    if rest then
      bindIn scope name (← newArray args.toArray)
    else
      bindIn scope name (args.headD .undefined)
  | name :: names, args => do
    bindIn scope name (args.headD .undefined)
    bindParams scope rest names args.tail

/--
Whether the class that a function was declared in is still in use when the function is called. The
function does not keep it. Mostly the receiver or a name that the function sees does, so these are
looked at first.
-/
def ownerInUse (closure : Closure) (owner : TypeRef) (handle : Handle) (args : List Value) :
    Run Bool := do
  let heap ← getHeap
  if let some (.type type) := heap.scopes.lookup? closure.scope (heap.types.name owner) then
    if type = owner then
      return true
  if heap.types.isSubOf (heap.inst handle).type owner then
    return true
  inUse (.type owner)
    (.scope closure.scope :: (Value.object handle).cells ++ args.flatMap Value.cells)

/--
The receiver of a call. A method of a class gets the instance itself, and `super` is bound to a view
of it. A function outlives its class as one that belongs to none.
-/
def bindReceiver (scope : ScopeRef) (closure : Closure) (this : Value) (args : List Value) : Run Value := do
  match closure.owner, this with
  | some owner, .object handle =>
    if ← ownerInUse closure owner handle args then
      let view ← alloc (·.superView handle owner)
      bindIn scope "super" (.object view)
      return .object handle.realThis
    else
      return this
  | _, this => return this

/-- The scope of a call with everything bound that the body may use. -/
def callScope (closure : Closure) (this : Value) (args : List Value) : Run ScopeRef := do
  let scope ← alloc (·.newScope (some closure.scope))
  let this ← bindReceiver scope closure this args
  bindIn scope "this" this
  bindIn scope "arguments" (← newArray args.toArray)
  bindParams scope closure.code.rest closure.code.params args
  return scope

/-- The code of a function and the scope that it is called in. -/
def openCall (ref : ClosureRef) (this : Value) (args : List Value) : Run (FuncDef × ScopeRef) := do
  let closure := (← getHeap).closure ref
  let scope ← callScope closure this args
  return (closure.code, scope)

/-- A function that is not written in the script. Its receiver and its arguments are held on to. -/
def openNative (ref : NativeRef) (this : Value) (args : List Value) : Run Native := do
  hold this
  holdAll args
  return (← getHeap).native ref

end Run

namespace Machine

/--
Runs the body of a function in the scope of a call and gives the value that it leaves. The signal and
the value of the caller's statement stay.
-/
def withCall (m : Machine) (name : String) (scope : ScopeRef) (body : Run Unit) : Run Value := do
  let flow ← Run.takeFlow
  let retVal ← Run.retVal
  Run.hold retVal
  Run.setRetVal .undefined
  let result ← Run.capture (Run.deeper (m.withFrame (.function name) scope body))
  let value ← Run.retVal
  Run.setFlow flow
  Run.setRetVal retVal
  Run.ofCaptured result
  return value

/-- Calls a function of the script. -/
def invokeClosure (m : Machine) (ref : ClosureRef) (this : Value) (args : List Value) : Run Value := do
  Run.checkDepth
  let (code, scope) ← Run.openCall ref this args
  m.withCall code.displayName scope do
    m.execAll code.body
    Run.finishFlow

/-- Makes an instance of a type and initialises it. -/
def construct (m : Machine) (type : TypeRef) (args : List Value) : Run Value := do
  let handle ← Run.alloc (·.newInstance type .empty)
  Run.hold (.object handle)
  let init ← m.getMember (.object handle) "__init__"
  if ← Run.isCallable init then
    let _ ← m.invoke init .undefined args
  return .object handle

/-- Calls a value, given how functions that are not written in the script are run. -/
def invokeWith (m : Machine) (runNative : Native → Value → List Value → Run Value) (callee this : Value)
    (args : List Value) : Run Value :=
  match callee with
  | .func ref => m.invokeClosure ref this args
  | .native ref => do
    Run.checkDepth
    let native ← Run.openNative ref this args
    Run.deeper (runNative native this args)
  | .bound _ receiver callee => m.invokeWith runNative callee receiver args
  | .type type => m.construct type args
  | .object _ => do
    if ← Run.isCallable callee then
      let call ← m.getMember callee "__call__"
      m.invoke call .undefined args
    else
      Run.notCallable callee
  | other => Run.notCallable other

/-- Calls a value with arguments that are not yet in place. -/
def applyArgs (m : Machine) (callee : Value) (args : List PendingArg) (supplied : List Value)
    (isOptional : Bool) : Run Value := do
  if ← Run.isCallable callee then
    let args ← m.placeArgs callee args supplied
    m.invoke callee .undefined args
  else if isOptional then
    return .undefined
  else
    Run.notCallable callee

/-- Evaluates a call. With holes it makes a function of the arguments that are missing. -/
def evalCall (m : Machine) (code : Call) : Run Value := do
  let callee ← m.evalHeld code.callee
  let args ← m.evalArgs code.args
  if code.isBind then
    Run.newNative ⟨"", [], .partialCall callee args code.isOptional⟩
  else
    m.applyArgs callee args [] code.isOptional

/-- Evaluates `new`. -/
def evalNew (m : Machine) (cls : Expr) (args : List Arg) : Run Value := do
  let type ← m.evalType "a type after 'new'" cls
  let args ← m.evalArgs args
  let args ← m.placeArgs (.type type) args []
  m.construct type args

end Machine

end ScriptEngine
