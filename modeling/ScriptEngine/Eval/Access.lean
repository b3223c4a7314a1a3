import ScriptEngine.Number.Word
import ScriptEngine.State.Machine

/-!
This module contains the access to members and items of values.

A member is looked up in the object itself, in its type and the bases of its type, through a
`__getAttr__` of the type, among the members that every value has, and among the members that
scripts added to the type. What can be called comes back bound to the value it was read from.
-/

namespace ScriptEngine

namespace Heap

/-- Whether a value can be called. -/
def isCallable (h : Heap) : Value → Bool
  | .object handle =>
    (h.members handle).contains "__call__" ||
      (h.types.findMember? (h.objectType handle) "__call__").isSome
  | value => value.isCallableKind

end Heap

/-- The place that an index points to. A negative one counts from the end. -/
def normalizeIndex (index : Int64) (length : Nat) : Option Nat :=
  let i := Word.fromStart index length
  if 0 ≤ i ∧ i < length then some i.toNat else none

namespace Run

def isCallable (value : Value) : Run Bool := return (← getHeap).isCallable value

/-- Binds what can be called to the value that it was read from. -/
def makeMember (owner member : Value) : Run Value := do
  if member.isCallableKind then
    let tag ← alloc (·.newTag)
    return .bound tag owner member
  else
    return member

def typeMember? (type : TypeRef) (name : String) : Run (Option Value) :=
  return (← getHeap).types.findMember? type name

def extension? (type : TypeRef) (name : String) : Run (Option Value) := do
  return (← getWorld).extensions.find? (← getHeap).types type name

/-- The members that every value has when nothing else is found. -/
def commonMember? (name : String) : Run (Option Value) :=
  match name with
  | "must" => return some (← newNative ⟨"must", [], .must⟩)
  | "notNil" => return some (← newNative ⟨"notNil", [], .notNil⟩)
  | _ => return none

/-- A member that is found in an object itself. -/
def ownMember? (owner : Value) (name : String) : Run (Option Value) := do
  match owner with
  | .object handle => return ((← getHeap).members handle).get? name
  | _ => return none

/--
The member of a value that overrides an operator. It has to be callable, and `__getAttr__` is not
asked.
-/
def findHook (owner : Value) (name : String) : Run (Option Value) := do
  let type := (← getHeap).typeOf owner
  let found ← do
    match ← ownMember? owner name with
    | some member => pure (some member)
    | none =>
      match ← typeMember? type name with
      | some member => pure (some member)
      | none => extension? type name
  match found with
  | some member => if ← isCallable member then return some (← makeMember owner member) else return none
  | none => return none

/-- Runs `owner.name = value`. Only objects and types have members that can be set. -/
def setMember (owner : Value) (name : String) (value : Value) : Run Unit := do
  match owner with
  | .object handle => modifyHeap (·.setMember handle name value)
  | .type type => modifyHeap fun h => { h with types := h.types.setStatic type name value }
  | other => mismatch "an object to set member" other

def requireIndex (index : Value) : Run Int64 :=
  match index with
  | .int i => return i
  | other => mismatch "Int index" other

/-- The place of an index that has to be within the bounds. -/
def requireSlot (index : Int64) (length : Nat) : Run Nat :=
  match normalizeIndex index length with
  | some slot => return slot
  | none => raise (.indexOutOfBounds index length)

end Run

namespace Machine

/-- A member of a value by way of its type. -/
def memberByType (m : Machine) (owner : Value) (name : String) : Run Value := do
  let type := (← Run.getHeap).typeOf owner
  if let some member ← Run.typeMember? type name then
    return ← Run.makeMember owner member
  if let some getAttr ← Run.typeMember? type "__getAttr__" then
    if ← Run.isCallable getAttr then
      let value ← m.invoke getAttr owner [.str name]
      if !value.isUndefined then
        return ← Run.makeMember owner value
  if let some member ← Run.commonMember? name then
    return ← Run.makeMember owner member
  if let some member ← Run.extension? type name then
    return ← Run.makeMember owner member
  return .undefined

/-- The first of several values that is not `undefined`. -/
def firstDefined {α : Type} (f : α → Run Value) : List α → Run Value
  | [] => return .undefined
  | a :: as => do
    let value ← f a
    if value.isUndefined then firstDefined f as else return value

def getStatic.go (m : Machine) (view : TypeRef) (name : String) : Nat → TypeRef → Run Value
  | 0, _ => Run.exhausted
  | fuel + 1, type => do
    let types := (← Run.getHeap).types
    if let some value := types.ownStatic? type name then
      return value
    if let some getAttr := types.ownStatic? type "__getAttr__" then
      if ← Run.isCallable getAttr then
        return ← m.invoke getAttr (.type view) [.str name]
    let value ← firstDefined (fun base => go m view name fuel base) (types.bases type)
    if !value.isUndefined then
      return value
    if types.id view != types.id type then
      return .undefined
    match ← Run.extension? BuiltinType.type.ref name with
    | some member => Run.makeMember (.type view) member
    | none => return .undefined

/-- A static of a type or of its bases. A static `__getAttr__` answers before the bases are asked. -/
def getStatic (m : Machine) (type : TypeRef) (name : String) : Run Value :=
  getStatic.go m type name (type.index + 1) type

/-- The value of `owner.name`. -/
def getMember (m : Machine) (owner : Value) (name : String) : Run Value := do
  match owner with
  | .object handle =>
    match ((← Run.getHeap).members handle).get? name with
    | some member => Run.makeMember owner member
    | none => m.memberByType owner name
  | .type type => m.getStatic type name
  | .func ref =>
    let code := ((← Run.getHeap).closure ref).code
    match name with
    | "__name__" => return .str (code.name.getD "anonymous")
    | "__args__" => Run.newArray (code.params.map Value.str).toArray
    | _ => m.memberByType owner name
  | _ => m.memberByType owner name

/-- The value of `owner[index]`. Outside of the bounds there is `undefined`. -/
def getIndex (m : Machine) (owner index : Value) : Run Value := do
  match index with
  | .str name => m.getMember owner name
  | _ =>
    match owner with
    | .array ref =>
      let i ← Run.requireIndex index
      let items := (← Run.getHeap).items ref
      return ((normalizeIndex i items.size).bind fun k => items[k]?).getD .undefined
    | .bytes ref =>
      let i ← Run.requireIndex index
      let data := (← Run.getHeap).data ref
      match (normalizeIndex i data.size).bind fun k => data[k]? with
      | some byte => return .int (Word.ofNat byte.toNat)
      | none => return .undefined
    | .str s =>
      let i ← Run.requireIndex index
      let chars := s.toList
      match (normalizeIndex i chars.length).bind fun k => chars[k]? with
      | some c => return .str (String.singleton c)
      | none => return .undefined
    | .object _ =>
      let getItem ← m.getMember owner "__getItem__"
      if ← Run.isCallable getItem then m.invoke getItem .undefined [index] else return .undefined
    | .type _ => return .undefined
    | other => Run.mismatch "an indexable value" other

/-- Runs `owner[index] = value`. Outside of the bounds that is an error. -/
def setIndex (m : Machine) (owner index value : Value) : Run Unit := do
  match index with
  | .str name => Run.setMember owner name value
  | _ =>
    match owner with
    | .array ref =>
      let i ← Run.requireIndex index
      let slot ← Run.requireSlot i ((← Run.getHeap).items ref).size
      Run.modifyHeap (·.modifyItems ref (·.setIfInBounds slot value))
    | .bytes ref =>
      let i ← Run.requireIndex index
      match value.int?.bind Word.toByte? with
      | none => Run.mismatch "a byte value" value
      | some byte =>
        let slot ← Run.requireSlot i ((← Run.getHeap).data ref).size
        Run.modifyHeap (·.modifyData ref (·.setIfInBounds slot byte))
    | .object _ =>
      let setItem ← m.getMember owner "__setItem__"
      if ← Run.isCallable setItem then
        let _ ← m.invoke setItem .undefined [index, value]
      else
        Run.mismatch "an object with __setItem__" owner
    | other => Run.mismatch "an indexable value" other

end Machine

end ScriptEngine
