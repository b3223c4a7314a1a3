import ScriptEngine.State.Basic

/-!
This module contains what a context's frames are asked for: the current scope and position, the
backtrace, and the frames that calls are put off to.
-/

namespace ScriptEngine

namespace Stack

/-- All frames, the innermost one first. -/
def frames (s : Stack) : List Frame := s.top :: s.below

def push (s : Stack) (frame : Frame) : Stack := ⟨frame, s.frames⟩

/-- Takes the innermost frame away, unless it is the last one. -/
def pop (s : Stack) : Stack :=
  match s.below with
  | [] => s
  | top :: below => ⟨top, below⟩

def ofFrames (frames : List Frame) (s : Stack) : Stack :=
  match frames with
  | [] => s
  | top :: below => ⟨top, below⟩

def backtrace.go (pending : Option Position) : List Frame → List Activation
  | [] => []
  | frame :: frames =>
    let pos := pending.getD frame.position
    match frame.kind with
    | .function name => ⟨name, pos⟩ :: go none frames
    | .root => ⟨"<module>", pos⟩ :: go (some pos) frames
    | .block => go (some pos) frames

/-- The active functions, innermost first, each with the position of its innermost frame. -/
def backtrace (s : Stack) : List Activation := backtrace.go none s.frames

/--
Whether the statements of a module run that stand at its top, or in one block there, outside of all
functions.
-/
def isModuleTop (s : Stack) : Bool := s.frames.length ≤ 2 && !s.frames.any fun f => f.kind.isFunction

def addDefer.go (call : Deferred) : List Frame → List Frame
  | [] => []
  | frame :: frames =>
    if frame.kind.isBoundary then { frame with defers := call :: frame.defers } :: frames
    else frame :: go call frames

/-- Puts a call off until the function ends. -/
def addDefer (s : Stack) (call : Deferred) : Stack := s.ofFrames (addDefer.go call s.frames)

/-- Puts a call off until the block ends. -/
def addBlockDefer (s : Stack) (call : Deferred) : Stack :=
  { s with top := { s.top with defers := call :: s.top.defers } }

def takeRootDefers.go : List Frame → List Deferred × List Frame
  | [] => ([], [])
  | [frame] => (frame.defers, [{ frame with defers := [] }])
  | frame :: frames =>
    let (defers, frames) := go frames
    (defers, frame :: frames)

/-- Takes the calls that were put off until the module ends. -/
def takeRootDefers (s : Stack) : List Deferred × Stack :=
  let (defers, frames) := takeRootDefers.go s.frames
  (defers, s.ofFrames frames)

end Stack

namespace Context

/-- A context with one frame. -/
def new (scope : ScopeRef) (position : Position) (exports : Handle) : Context where
  stack := ⟨⟨.root, scope, position, []⟩, []⟩
  retVal := .undefined
  flow := .normal
  exports := exports
  depth := 0

end Context

namespace Run

variable {α : Type}

def getStack : Run Stack := return (← getContext).stack

def modifyStack (f : Stack → Stack) : Run Unit := modifyContext fun c => { c with stack := f c.stack }

/-- The scope that names are defined in. -/
def currentScope : Run ScopeRef := return (← getStack).top.scope

def position : Run Position := return (← getStack).top.position

def setPosition (pos : Position) : Run Unit :=
  modifyStack fun s => { s with top := { s.top with position := pos } }

def backtrace : Run (List Activation) := return (← getStack).backtrace

/-- Adds the current position and backtrace to an error that has none. -/
def located (e : Error) : Run Error := do
  let stack ← getStack
  return e.locate stack.top.position fun _ => stack.backtrace

/-- Adds the current position and backtrace to an error that a computation raises. -/
def locating (act : Run α) : Run α := do
  match ← capture act with
  | .ok a => pure a
  | .error e => raiseError (← located e)

def retVal : Run Value := return (← getContext).retVal

def setRetVal (value : Value) : Run Unit := modifyContext fun c => { c with retVal := value }

def flow : Run Flow := return (← getContext).flow

def setFlow (flow : Flow) : Run Unit := modifyContext fun c => { c with flow := flow }

/-- The pending signal, which is cleared. -/
def takeFlow : Run Flow := do
  let flow ← flow
  setFlow .normal
  return flow

/-- Clears the signal where a function or a module ends. Leaving a loop makes no sense there. -/
def finishFlow : Run Unit := do
  match ← takeFlow with
  | .normal | .ret => return
  | .jump kind label => raiseError (← located (.ofCause (.unmatchedJump kind label)))

def exports : Run Handle := return (← getContext).exports

def setExport (name : String) (value : Value) : Run Unit := do
  let exports ← exports
  modifyHeap (·.setMember exports name value)

/-- The value of a name; a name that is not bound is `undefined`. -/
def lookup (name : String) : Run Value := do
  let scope ← currentScope
  return ((← getHeap).scopes.lookup? scope name).getD .undefined

/-- Binds a name in the current scope, whether it was bound or not. -/
def forceLocal (name : String) (value : Value) : Run Unit := do
  let scope ← currentScope
  modifyHeap fun h => { h with scopes := h.scopes.force scope name value }

/-- Binds a name in the scope that `target` chooses, or raises the error that it gives. -/
def bindVar (target : Except BindError (Option ScopeRef)) (name : String) (value : Value) : Run Unit := do
  match target with
  | .ok target => modifyHeap fun h => { h with scopes := h.scopes.putIn target name value }
  | .error .redefined => raise (.redefinedVariable name)
  | .error .unbound => raise (.unboundVariable name)

/-- Binds a name that the current scope does not bind yet. -/
def defineLocal (name : String) (value : Value) : Run Unit := do
  let scope ← currentScope
  let target := (← getHeap).scopes.defineTarget scope name
  bindVar target name value

/-- Writes to the nearest binding of a name. -/
def assignVar (name : String) (value : Value) : Run Unit := do
  let scope ← currentScope
  let target := (← getHeap).scopes.assignTarget scope name
  bindVar target name value

def addDefer (callee : Value) (args : List Value) : Run Unit :=
  modifyStack (·.addDefer ⟨callee, args, false⟩)

def addBlockDefer (callee : Value) (args : List Value) (isOptional : Bool) : Run Unit :=
  modifyStack (·.addBlockDefer ⟨callee, args, isOptional⟩)

/-- A fresh context at a position. Its scope sees the globals. -/
def newContext (position : Position) : Run Context := do
  let globals := (← getWorld).globals
  let scope ← alloc (·.newScope (some globals))
  let exports ← alloc (·.newObject .empty)
  return .new scope position exports

/-- Runs a computation in another context, which is given back, and keeps the current one. -/
def inContext (context : Context) (act : Run α) : Run (Except Halt α × Context) := do
  let saved ← getContext
  modifyContext fun _ => context
  let result ← captureHalt <| lettingGo do
    keep (.context saved)
    act
  let context ← getContext
  modifyContext fun _ => saved
  return (result, context)

/-- Runs a computation in a fresh context at the current position. -/
def forked (act : Run α) : Run α := do
  let context ← newContext (← position)
  let (result, _) ← inContext context act
  ofHalting result

end Run

end ScriptEngine
