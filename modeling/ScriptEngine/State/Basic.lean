import ScriptEngine.Heap.Basic
import ScriptEngine.State.Sink

/-!
This module contains the state of an evaluation. The heap and the world are common to everything
that an engine runs; a context belongs to one thread of evaluation, with a stack of frames and the
signal of a statement that leaves its block.
-/

namespace ScriptEngine

structure Settings where
  /-- Adds what the host's values hold to some reports. -/
  debug : Bool := false
  /-- How many calls may be active at once. -/
  maxDepth : Nat := 10000
  /-- How many digits the results of decimal arithmetic have. -/
  precision : Nat := 308
deriving DecidableEq, Inhabited

/-- A loaded module and the timestamp that it was loaded with. Zero means that it never changes. -/
structure Module where
  value : Value
  modified : Int64
deriving Inhabited

/-- What all contexts of an engine share, apart from the heap. -/
structure World where
  settings : Settings
  globals : ScopeRef
  extensions : Extensions
  modules : Table Module
  sink : Sink
  /-- The class of the handles of spawned calls. -/
  threadType : TypeRef
deriving Inhabited

/-- How a statement ended: as usual, or leaving a loop or the function. -/
inductive Flow where
  | normal
  | jump (kind : Jump) (label : Option String)
  | ret
deriving DecidableEq, Inhabited

def Flow.isNormal (flow : Flow) : Bool := flow == .normal

inductive FrameKind where
  | root
  | block
  | function (name : String)
deriving DecidableEq, Inhabited

/-- Whether a frame is the outermost one of a function or of a module. -/
def FrameKind.isBoundary : FrameKind → Bool
  | block => false
  | root | function _ => true

def FrameKind.isFunction : FrameKind → Bool
  | function _ => true
  | root | block => false

/-- A call that was put off until its frame ends. -/
structure Deferred where
  callee : Value
  args : List Value
  /-- Whether the call is skipped if the callee cannot be called. -/
  isOptional : Bool
deriving Inhabited

structure Frame where
  kind : FrameKind
  scope : ScopeRef
  /-- The statement that is being run. -/
  position : Position
  /-- The calls that were put off, the last one first. -/
  defers : List Deferred
deriving Inhabited

/-- A context's frames. There is always one, the frame of the module at the bottom. -/
structure Stack where
  top : Frame
  below : List Frame
deriving Inhabited

structure Context where
  stack : Stack
  /-- The value of the last statement. -/
  retVal : Value
  flow : Flow
  /-- The object that the module exports. -/
  exports : Handle
  /-- The number of active calls. -/
  depth : Nat
deriving Inhabited

/-- What an evaluation in progress holds on to besides its frames. -/
inductive Held where
  | value (value : Value)
  | values (values : List Value)
  /-- Members that are still to be visited. -/
  | entries (entries : List (String × Value))
  /-- Calls that are still to be made. -/
  | calls (calls : List Deferred)
  /-- A context that waits for another one. -/
  | context (context : Context)

structure State where
  heap : Heap
  world : World
  context : Context
  /-- What the evaluations in progress hold on to, the last one first. -/
  held : List Held
deriving Inhabited

/-- Why an evaluation gave no result. -/
inductive Halt where
  /-- An error was raised. -/
  | raised (error : Error)
  /-- The evaluation did not end within the steps that it was given. -/
  | exhausted
  /-- The host's own code broke down. Nothing runs on this thread any more. -/
  | died
deriving Inhabited

/-- A computation on the state. The state is kept when it fails. -/
abbrev Run := EStateM Halt State

namespace Run

variable {α : Type}

def raiseError (e : Error) : Run α := throw (.raised e)

def raise (cause : Cause) : Run α := raiseError (.ofCause cause)

/-- The error that the host reports. -/
def fail (message : String) : Run α := raise (.host message)

def exhausted : Run α := throw .exhausted

/-- The value of an optional result, which is missing only if the steps did not suffice. -/
def ofOption : Option α → Run α
  | some a => pure a
  | none => exhausted

def ofExcept : Except Cause α → Run α
  | .ok a => pure a
  | .error cause => raise cause

/-- Runs a computation and gives an error that it raises as a result. -/
def capture (act : Run α) : Run (Except Error α) := fun s =>
  match act s with
  | .ok a s => .ok (.ok a) s
  | .error (.raised e) s => .ok (.error e) s
  | .error halt s => .error halt s

def ofCaptured : Except Error α → Run α
  | .ok a => pure a
  | .error e => raiseError e

/-- Runs a computation and gives the reason as a result if it has none. -/
def captureHalt (act : Run α) : Run (Except Halt α) := fun s =>
  match act s with
  | .ok a s => .ok (.ok a) s
  | .error halt s => .ok (.error halt) s

def ofHalting : Except Halt α → Run α
  | .ok a => pure a
  | .error halt => throw halt

def getHeap : Run Heap := return (← get).heap

def getWorld : Run World := return (← get).world

def getSettings : Run Settings := return (← getWorld).settings

def getContext : Run Context := return (← get).context

def modifyHeap (f : Heap → Heap) : Run Unit :=
  modify fun ⟨heap, world, context, held⟩ => ⟨f heap, world, context, held⟩

def modifyWorld (f : World → World) : Run Unit :=
  modify fun ⟨heap, world, context, held⟩ => ⟨heap, f world, context, held⟩

def modifyContext (f : Context → Context) : Run Unit :=
  modify fun ⟨heap, world, context, held⟩ => ⟨heap, world, f context, held⟩

/-- Allocates in the heap. -/
def alloc (f : Heap → α × Heap) : Run α :=
  modifyGet fun ⟨heap, world, context, held⟩ =>
    match f heap with
    | (a, heap) => (a, ⟨heap, world, context, held⟩)

/-- Holds on to something until the evaluation in progress ends. -/
def keep (held : Held) : Run Unit :=
  modify fun s => { s with held := held :: s.held }

/-- Holds on to a value until the evaluation in progress ends. -/
def hold (value : Value) : Run Unit := if value.isShared then keep (.value value) else pure ()

/-- Holds on to values until the evaluation in progress ends. -/
def holdAll (values : List Value) : Run Unit :=
  if values.isEmpty then pure () else keep (.values values)

/-- Runs a computation and then lets go of what it held on to. -/
def lettingGo (act : Run α) : Run α := fun s =>
  let held := s.held
  match act s with
  | .ok a s => .ok a { s with held := held }
  | .error halt s => .error halt { s with held := held }

def newArray (items : Array Value) : Run Value := alloc (·.newArray items)

def newBytes (data : Array UInt8) : Run Value := alloc (·.newBytes data)

/-- A plain object with the given members. -/
def newObject (entries : List (String × Value)) : Run Value := do
  let handle ← alloc (·.newObject (Members.ofList entries))
  return .object handle

def newNative (native : Native) : Run Value := alloc (·.newNative native)

def newClosure (closure : Closure) : Run Value := alloc (·.newClosure closure)

/-- The error that a value is not what is needed. -/
def mismatch (expected : String) (got : Value) : Run α := do
  raise (.typeMismatch expected ((← getHeap).typeName got))

def print (text : String) : Run Unit := modifyWorld fun w => { w with sink := w.sink.print text }

def println (text : String) : Run Unit := modifyWorld fun w => { w with sink := w.sink.println text }

end Run

end ScriptEngine
