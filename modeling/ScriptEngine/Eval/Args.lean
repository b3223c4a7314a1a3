import ScriptEngine.Eval.Access

/-!
This module contains the arguments of calls. They are evaluated in order, and then laid out: keyword
arguments go to the place of their parameter, arrays are spread out, and holes are filled with the
arguments of a later call.
-/

namespace ScriptEngine

namespace PendingArg

def isKeyword : PendingArg → Bool
  | .keyword .. => true
  | _ => false

end PendingArg

namespace Args

/-- The argument that fills a hole. A negative index counts from the end. -/
def fillHole (index : Int) (supplied : List Value) : Except Cause Value :=
  let i := if index < 0 then index + supplied.length else index
  match if 0 ≤ i then supplied[i.toNat]? else none with
  | some value => .ok value
  | none => .error (.host "placeholder value not given")

/-- Writes an argument at a place. Places before it that have none are `undefined`. -/
def putAt (args : List Value) (pos : Nat) (value : Value) : List Value :=
  if pos < args.length then args.set pos value
  else args ++ List.replicate (pos - args.length) .undefined ++ [value]

/-- Writes a keyword argument at the place of its parameter. One that is `undefined` is ignored. -/
def putKeyword (params : List String) (callee : String) (args : List Value) (name : String)
    (value : Value) : Except Cause (List Value) :=
  match params.idxOf? name with
  | none => .error (.invalidKeyword name callee)
  | some pos => .ok (if value.isUndefined then args else putAt args pos value)

def place.go (heap : Heap) (params : List String) (callee : String) (supplied : List Value)
    (args : List Value) : List PendingArg → Except Cause (List Value)
  | [] => .ok args
  | .positional value :: rest => go heap params callee supplied (args ++ [value]) rest
  | .hole index :: rest =>
    match fillHole index supplied with
    | .ok value => go heap params callee supplied (args ++ [value]) rest
    | .error cause => .error cause
  | .spread value :: rest =>
    match heap.items? value with
    | some items => go heap params callee supplied (args ++ items.toList) rest
    | none => .error (.typeMismatch "Array for expanded arguments" (heap.typeName value))
  | .keyword name value :: rest =>
    match putKeyword params callee args name value with
    | .ok args => go heap params callee supplied args rest
    | .error cause => .error cause

/--
Lays out the arguments of a call. `params` and `callee` are the parameters and the name of what is
called, and `supplied` are the arguments that fill the holes.
-/
def place (heap : Heap) (params : List String) (callee : String) (args : List PendingArg)
    (supplied : List Value) : Except Cause (List Value) :=
  place.go heap params callee supplied [] args

end Args

namespace Heap

/-- The parameters of a value that can be called, if they are found in `depth` steps. -/
def params? (h : Heap) : Nat → Value → Option (List String)
  | 0, _ => none
  | depth + 1, callee =>
    match callee with
    | .func ref => some (h.closure ref).code.params
    | .native ref => some (h.native ref).params
    | .bound _ _ callee => h.params? depth callee
    | .type type =>
      match h.types.findMember? type "__init__" with
      | some init => h.params? depth init
      | none => some []
    | _ => some []

/-- The name that reports use for what is called. -/
def calleeName (h : Heap) : Value → String
  | .func ref => (h.closure ref).code.displayName
  | .native ref => (h.native ref).name
  | .bound _ _ callee => h.calleeName callee
  | .type type => h.types.name type
  | other => h.typeName other

end Heap

namespace Machine

/-- The parameters under which a value takes keyword arguments. -/
def argNames (m : Machine) (callee : Value) : Run (List String) := do
  Run.ofOption ((← Run.getHeap).params? m.fuel callee)

/-- Evaluates the arguments of a call in order. -/
def evalArgs (m : Machine) (args : List Arg) : Run (List PendingArg) :=
  args.mapM fun arg => do
    match arg with
    | .positional value => return .positional (← m.evalHeld value)
    | .keyword name value => return .keyword name (← m.evalHeld value)
    | .spread value => return .spread (← m.evalHeld value)
    | .hole index => return .hole index

/-- Lays out the arguments of a call for what is called. -/
def placeArgs (m : Machine) (callee : Value) (args : List PendingArg) (supplied : List Value) :
    Run (List Value) := do
  let params ← if args.any PendingArg.isKeyword then m.argNames callee else pure []
  let heap ← Run.getHeap
  Run.ofExcept (Args.place heap params (heap.calleeName callee) args supplied)

end Machine

end ScriptEngine
