import ScriptEngine.Heap.Types

/-!
This module contains the functions that are not written in the script: the functions and methods
that every engine has, calls with holes, and functions of the host, which only the host can run.
-/

namespace ScriptEngine

/-- The functions that every script can call by name. -/
inductive Builtin where
  | println | print | str | int | float | len | type | typeName | range
  | isUndefined | isCallable | isArray | isObject | spawn | load | min | max
deriving DecidableEq, Inhabited

namespace Builtin

def all : List Builtin :=
  [println, print, str, int, float, len, type, typeName, range, isUndefined, isCallable, isArray,
   isObject, spawn, load, min, max]

def name : Builtin → String
  | println => "println"
  | print => "print"
  | str => "str"
  | int => "int"
  | float => "float"
  | len => "len"
  | type => "type"
  | typeName => "typeName"
  | range => "range"
  | isUndefined => "isUndefined"
  | isCallable => "isCallable"
  | isArray => "isArray"
  | isObject => "isObject"
  | spawn => "spawn"
  | load => "import"
  | min => "min"
  | max => "max"

/-- The names under which keyword arguments are taken. -/
def params : Builtin → List String
  | println | print | spawn | min | max => []
  | range => ["begin", "end", "step"]
  | load => ["name", "forceReload"]
  | _ => ["value"]

end Builtin

/-- The methods of the types that every engine has. -/
inductive Method where
  | arrayLen | arrayPush | arrayPop | arrayMap | arrayFilter | arrayJoin | arrayContains
  | strLen | strUpper | strLower | strSplit | strTrim | strStartsWith | strEndsWith | strContains
  | objectKeys | objectValues | objectPairs | objectEach
  | intTimes
  | bytesLen | bytesHex | bytesContains
deriving DecidableEq, Inhabited

namespace Method

def all : List Method :=
  [arrayLen, arrayPush, arrayPop, arrayMap, arrayFilter, arrayJoin, arrayContains,
   strLen, strUpper, strLower, strSplit, strTrim, strStartsWith, strEndsWith, strContains,
   objectKeys, objectValues, objectPairs, objectEach, intTimes, bytesLen, bytesHex, bytesContains]

def owner : Method → BuiltinType
  | arrayLen | arrayPush | arrayPop | arrayMap | arrayFilter | arrayJoin | arrayContains => .array
  | strLen | strUpper | strLower | strSplit | strTrim | strStartsWith | strEndsWith | strContains => .str
  | objectKeys | objectValues | objectPairs | objectEach => .object
  | intTimes => .int
  | bytesLen | bytesHex | bytesContains => .bytes

def name : Method → String
  | arrayLen | strLen | bytesLen => "len"
  | arrayPush => "push"
  | arrayPop => "pop"
  | arrayMap => "map"
  | arrayFilter => "filter"
  | arrayJoin => "join"
  | arrayContains | strContains | bytesContains => "contains"
  | strUpper => "upper"
  | strLower => "lower"
  | strSplit => "split"
  | strTrim => "trim"
  | strStartsWith => "startsWith"
  | strEndsWith => "endsWith"
  | objectKeys => "keys"
  | objectValues => "values"
  | objectPairs => "pairs"
  | objectEach => "each"
  | intTimes => "times"
  | bytesHex => "hex"

end Method

/-- An argument of a call, evaluated but not yet in its place. -/
inductive PendingArg where
  | positional (value : Value)
  | keyword (name : String) (value : Value)
  | spread (value : Value)
  | hole (index : Int)
deriving Inhabited

/-- The name of a function of the host, with the values that it captured. -/
structure HostCall where
  symbol : String
  captured : List Value
deriving Inhabited

/-- What a function does that is not written in the script. -/
inductive Routine where
  | builtin (function : Builtin)
  | method (method : Method)
  /-- Checks a value with every argument. -/
  | must
  /-- Lets every value pass that is there. -/
  | notNil
  /-- A call with holes, which are filled by the arguments. -/
  | partialCall (callee : Value) (args : List PendingArg) (isOptional : Bool)
  /-- The initialisers of all bases of a class. -/
  | superInit (bases : List TypeRef)
  /-- Waits for a spawned call and gives its value. -/
  | join
  /-- Waits for a spawned call and gives its exception. -/
  | joinError
  /-- Gives the step function of an iterator. -/
  | iterator (step : Value)
  /-- A step of an iterator of the host. The cell says whether it has ended. -/
  | step (next : HostCall) (ended : ArrayRef)
  | host (call : HostCall)
  /-- A method of a class of the host, which needs an object as receiver. -/
  | hostMethod (call : HostCall)
  /-- The initialiser of a class of the host. -/
  | hostInit (call : HostCall)
deriving Inhabited

end ScriptEngine
