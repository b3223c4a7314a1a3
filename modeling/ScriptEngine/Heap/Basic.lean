import ScriptEngine.Fault.Error
import ScriptEngine.Heap.Routine
import ScriptEngine.Heap.Scopes
import ScriptEngine.Tree.Basic

/-!
This module contains the heap: the tables behind all references. Nothing is ever removed from a
table, so a reference stays valid.
-/

namespace ScriptEngine

/-- A function of the script with the scope that it was made in. -/
structure Closure where
  code : FuncDef
  scope : ScopeRef
  /-- The class that the function was declared in. The function does not keep it in use. -/
  owner : Option TypeRef
deriving Inhabited

structure Native where
  name : String
  params : List String
  routine : Routine
deriving Inhabited

/-- What the host keeps in an object or a value of its own. -/
inductive Payload where
  | number (value : Int64)
  | value (value : Value)
  /-- How a spawned call ended. -/
  | outcome (result : Except Error Value)

structure Instance where
  type : TypeRef
  members : Members
  reserved : Option Payload

instance : Inhabited Instance := ⟨default, .empty, none⟩

/-- A value of the host, with a name for its kind and a description of what it holds. -/
structure HostCell where
  name : String
  holds : String
  payload : Payload

instance : Inhabited HostCell := ⟨"", "", .number 0⟩

structure Heap where
  arrays : Array (Array Value)
  bytes : Array (Array UInt8)
  instances : Array Instance
  closures : Array Closure
  natives : Array Native
  hosts : Array HostCell
  types : Types
  scopes : Scopes
  /-- The next tag that was never given away. -/
  nextTag : Nat
deriving Inhabited

namespace Heap

/-! Allocation -/

def newArray (h : Heap) (items : Array Value) : Value × Heap :=
  (.array ⟨h.arrays.size⟩, { h with arrays := h.arrays.push items })

/-- A new array without items. -/
def emptyArray (h : Heap) : ArrayRef × Heap := (⟨h.arrays.size⟩, (h.newArray #[]).2)

def newBytes (h : Heap) (data : Array UInt8) : Value × Heap :=
  (.bytes ⟨h.bytes.size⟩, { h with bytes := h.bytes.push data })

def newInstance (h : Heap) (type : TypeRef) (members : Members) : Handle × Heap :=
  (.ofInstance ⟨h.instances.size⟩, { h with instances := h.instances.push ⟨type, members, none⟩ })

def newClosure (h : Heap) (closure : Closure) : Value × Heap :=
  (.func ⟨h.closures.size⟩, { h with closures := h.closures.push closure })

def newNative (h : Heap) (native : Native) : Value × Heap :=
  (.native ⟨h.natives.size⟩, { h with natives := h.natives.push native })

def newHost (h : Heap) (cell : HostCell) : Value × Heap :=
  (.host ⟨h.hosts.size⟩, { h with hosts := h.hosts.push cell })

def newTag (h : Heap) : Nat × Heap := (h.nextTag, { h with nextTag := h.nextTag + 1 })

def newScope (h : Heap) (parent : Option ScopeRef) : ScopeRef × Heap :=
  let (ref, scopes) := h.scopes.add parent
  (ref, { h with scopes := scopes })

def newClass (h : Heap) (name : String) (bases : List TypeRef) : TypeRef × Heap :=
  let (ref, types) := h.types.newClass name bases
  (ref, { h with types := types })

/-! Reading -/

def items (h : Heap) (ref : ArrayRef) : Array Value := h.arrays.getD ref.index #[]

def data (h : Heap) (ref : BytesRef) : Array UInt8 := h.bytes.getD ref.index #[]

def inst (h : Heap) (handle : Handle) : Instance := h.instances.getD handle.real.index default

def members (h : Heap) (handle : Handle) : Members := (h.inst handle).members

def reserved? (h : Heap) (handle : Handle) : Option Payload := (h.inst handle).reserved

def closure (h : Heap) (ref : ClosureRef) : Closure := h.closures.getD ref.index default

def native (h : Heap) (ref : NativeRef) : Native := h.natives.getD ref.index default

def host (h : Heap) (ref : HostRef) : HostCell := h.hosts.getD ref.index default

/-- The type that an object's members are looked up in. -/
def objectType (h : Heap) (handle : Handle) : TypeRef :=
  match handle.view with
  | some view => view.type
  | none => (h.inst handle).type

def typeOf (h : Heap) : Value → TypeRef
  | .undefined => BuiltinType.undefined.ref
  | .nil => BuiltinType.nil.ref
  | .bool _ => BuiltinType.bool.ref
  | .int _ => BuiltinType.int.ref
  | .float _ => BuiltinType.float.ref
  | .decimal _ => BuiltinType.decimal.ref
  | .str _ => BuiltinType.str.ref
  | .bytes _ => BuiltinType.bytes.ref
  | .array _ => BuiltinType.array.ref
  | .object handle => h.objectType handle
  | .func _ | .native _ | .bound .. => BuiltinType.func.ref
  | .type _ => BuiltinType.type.ref
  | .host _ => BuiltinType.host.ref

def typeName (h : Heap) (value : Value) : String := h.types.name (h.typeOf value)

/-- The items of an array. -/
def items? (h : Heap) : Value → Option (Array Value)
  | .array ref => some (h.items ref)
  | _ => none

/-- The length of the values that have one. -/
def length? (h : Heap) : Value → Option Nat
  | .str s => some s.length
  | .bytes ref => some (h.data ref).size
  | .array ref => some (h.items ref).size
  | .object handle => some (h.members handle).size
  | _ => none

/-- Whether a value counts as true, whatever hooks it has. -/
def isTrue (h : Heap) : Value → Bool
  | .undefined | .nil => false
  | .bool b => b
  | .int i => i != 0
  | .float f => f != 0.0
  | .decimal d => !d.isZero
  | .str s => !s.isEmpty
  | .bytes ref => !(h.data ref).isEmpty
  | .array ref => !(h.items ref).isEmpty
  | .object handle => !(h.members handle).isEmpty
  | .func _ | .native _ | .bound .. | .type _ | .host _ => true

/-! Writing -/

def modifyItems (h : Heap) (ref : ArrayRef) (f : Array Value → Array Value) : Heap :=
  { h with arrays := h.arrays.modify ref.index f }

def modifyData (h : Heap) (ref : BytesRef) (f : Array UInt8 → Array UInt8) : Heap :=
  { h with bytes := h.bytes.modify ref.index f }

/-- Writes a member of an object. -/
def setMember (h : Heap) (handle : Handle) (name : String) (value : Value) : Heap :=
  { h with
    instances := h.instances.modify handle.real.index fun i =>
      { i with members := Members.set i.members name value } }

def setReserved (h : Heap) (handle : Handle) (payload : Payload) : Heap :=
  { h with
    instances := h.instances.modify handle.real.index fun i => { i with reserved := some payload } }

/-! Objects and their views -/

/-- An object of the plain object type. -/
def newObject (h : Heap) (members : Members) : Handle × Heap :=
  h.newInstance BuiltinType.object.ref members

/-- A view of an object through another type. -/
def viewAs (h : Heap) (handle : Handle) (type : TypeRef) : Handle × Heap :=
  let (tag, h) := h.newTag
  (⟨handle.real, some ⟨tag, type⟩⟩, h)

/--
The type through which `super` looks members up in the methods of a class. It has the bases of the
class and an initialiser that runs those of the bases. Every class has one, made when it is needed.
-/
def superType (h : Heap) (ref : TypeRef) : TypeRef × Heap :=
  if h.types.isSuperView ref then
    (ref, h)
  else
    match (h.types.node ref).superView with
    | some view => (view, h)
    | none =>
      let node := h.types.node ref
      let name := node.name ++ ".super"
      let (init, h) := h.newNative ⟨name ++ ".__init__", [], .superInit node.bases⟩
      let (view, types) := h.types.add (.new (-node.id) name node.bases)
      let types := (types.setMember view "__init__" init).setSuperView ref view
      (view, { h with types := types })

/-- The view of an object that `super` stands for in the methods of a class. -/
def superView (h : Heap) (handle : Handle) (owner : TypeRef) : Handle × Heap :=
  let (type, h) := h.superType owner
  h.viewAs handle type

end Heap

end ScriptEngine
