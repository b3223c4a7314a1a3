import ScriptEngine.Library.Functions
import ScriptEngine.Text.ByteText
import ScriptEngine.Text.CaseMap
import ScriptEngine.Text.Split

/-!
This module contains the methods of the types that every engine has. Those that call back into the
script go through the items that were there when they were called.
-/

namespace ScriptEngine

namespace Library

def strArg (args : List Value) (i : Nat) (what : String) : Run String :=
  match arg args i with
  | .str s => return s
  | other => Run.mismatch ("Str argument '" ++ what ++ "'") other

def callableArg (args : List Value) (i : Nat) (what : String) : Run Value := do
  let f := arg args i
  if ← Run.isCallable f then return f else Run.mismatch ("callable argument '" ++ what ++ "'") f

def thisStr (this : Value) : Run String :=
  match this with
  | .str s => return s
  | other => Run.mismatch "Str receiver" other

def thisArray (this : Value) : Run ArrayRef :=
  match this with
  | .array ref => return ref
  | other => Run.mismatch "Array receiver" other

def thisItems (this : Value) : Run (List Value) := do
  let ref ← thisArray this
  return ((← Run.getHeap).items ref).toList

def thisEntries (this : Value) : Run (List (String × Value)) := do
  match this with
  | .object handle => return ((← Run.getHeap).members handle).entries
  | other => Run.mismatch "Object receiver" other

def thisBytes (this : Value) : Run (List UInt8) := do
  match this with
  | .bytes ref => return ((← Run.getHeap).data ref).toList
  | other => Run.mismatch "Bytes receiver" other

def count (n : Nat) : Value := .int (Word.ofNat n)

/-- What `map` makes of an item: the result of a call, or a part of the item. -/
def mapItem (m : Machine) (mapper item : Value) (i : Nat) : Run Value := do
  match mapper with
  | .str name => m.getMember item name
  | .int _ => m.getIndex item mapper
  | f =>
    if ← Run.isCallable f then m.invoke f .undefined [item, count i]
    else Run.mismatch "callable, Str or Int mapper" f

def mapItems (m : Machine) (mapper : Value) (i : Nat) (out : Array Value) : List Value → Run (Array Value)
  | [] => return out
  | item :: items => do
    let value ← Run.lettingGo do
      Run.holdAll items
      mapItem m mapper item i
    Run.hold value
    mapItems m mapper (i + 1) (out.push value) items

def filterItems (m : Machine) (f : Value) (i : Nat) (out : Array Value) : List Value → Run (Array Value)
  | [] => return out
  | item :: items => do
    let keep ← Run.lettingGo do
      Run.holdAll (item :: items)
      m.isTruthy (← m.invoke f .undefined [item, count i])
    if keep then Run.hold item
    filterItems m f (i + 1) (if keep then out.push item else out) items

def containsItem (m : Machine) (needle : Value) : List Value → Run Bool
  | [] => return false
  | item :: items => do
    if ← m.valuesEqual item needle then return true else containsItem m needle items

def eachEntry (m : Machine) (f this : Value) : List (String × Value) → Run Unit
  | [] => return
  | (key, value) :: rest => do
    let _ ← Run.lettingGo do
      Run.keep (.entries rest)
      m.invoke f this [.str key, value]
    eachEntry m f this rest

/-- Calls a function with `i` and the words after it, `n` times. -/
def callTimes (m : Machine) (f : Value) : Nat → Int64 → Run Unit
  | 0, _ => return
  | n + 1, i => do
    let _ ← m.invoke f .undefined [.int i]
    callTimes m f n (i + 1)

def strArray (parts : List String) : Run Value := Run.newArray (parts.map Value.str).toArray

def splitStr (s : String) (args : List Value) : Run Value := do
  if args.isEmpty then
    strArray (Text.words s)
  else
    let sep ← strArg args 0 "separator"
    match arg args 1 with
    | .int limit =>
      if 0 < limit then strArray (Text.splitAtMost limit.toInt.toNat s sep)
      else strArray (Text.split s sep)
    | _ => strArray (Text.split s sep)

def times (m : Machine) (this : Value) (args : List Value) : Run Value := do
  match this with
  | .int n =>
    if n < 0 then
      Run.fail ("int.times count must not be negative, got " ++ Word.text n)
    else if args.isEmpty then
      Run.newArray (range 0 n 1)
    else
      let f ← callableArg args 0 "callback"
      callTimes m f n.toInt.toNat 0
      return .undefined
  | other => Run.mismatch "Int receiver" other

/-- Runs one of the methods. -/
def runMethod (m : Machine) (method : Method) (this : Value) (args : List Value) : Run Value := do
  match method with
  | .arrayLen => return count (← thisItems this).length
  | .arrayPush =>
    let ref ← thisArray this
    Run.modifyHeap (·.modifyItems ref (· ++ args.toArray))
    return this
  | .arrayPop =>
    let ref ← thisArray this
    let last := ((← Run.getHeap).items ref).back?.getD .undefined
    Run.modifyHeap (·.modifyItems ref Array.pop)
    return last
  | .arrayMap =>
    let items ← thisItems this
    Run.newArray (← mapItems m (arg args 0) 0 #[] items)
  | .arrayFilter =>
    let items ← thisItems this
    let f ← callableArg args 0 "predicate"
    Run.newArray (← filterItems m f 0 #[] items)
  | .arrayJoin =>
    let items ← thisItems this
    let sep ← if args.isEmpty then pure " " else strArg args 0 "separator"
    let parts ← items.mapM m.stringify
    return .str (sep.intercalate parts)
  | .arrayContains =>
    let items ← thisItems this
    return .bool (← containsItem m (arg args 0) items)
  | .strLen => return count (← thisStr this).length
  | .strUpper => return .str (Text.upper (← thisStr this))
  | .strLower => return .str (Text.lower (← thisStr this))
  | .strSplit => splitStr (← thisStr this) args
  | .strTrim => return .str (Text.trim (← thisStr this))
  | .strStartsWith =>
    let s ← thisStr this
    return .bool (Text.startsWith s (← strArg args 0 "prefix"))
  | .strEndsWith =>
    let s ← thisStr this
    return .bool (Text.endsWith s (← strArg args 0 "suffix"))
  | .strContains =>
    let s ← thisStr this
    return .bool (Text.contains s (← strArg args 0 "substring"))
  | .objectKeys => strArray ((← thisEntries this).map Prod.fst)
  | .objectValues => Run.newArray ((← thisEntries this).map Prod.snd).toArray
  | .objectPairs =>
    let pairs ← (← thisEntries this).mapM fun e =>
      Run.newObject [("key", .str e.1), ("value", e.2)]
    Run.newArray pairs.toArray
  | .objectEach =>
    let f ← callableArg args 0 "handler"
    eachEntry m f this (← thisEntries this)
    return .undefined
  | .intTimes => times m this args
  | .bytesLen => return count (← thisBytes this).length
  | .bytesHex => return .str (ByteText.hex (← thisBytes this))
  | .bytesContains =>
    let data ← thisBytes this
    match (arg args 0).int?.bind Word.toByte? with
    | some byte => return .bool (data.contains byte)
    | none => return .bool false

end Library

end ScriptEngine
