import ScriptEngine.Number.Decimal.Basic

/-!
This module contains the values that scripts compute with. Numbers and texts are values by
themselves, everything that is shared or can change is a reference into the heap.
-/

namespace ScriptEngine

/-- A reference to the items of an array. -/
structure ArrayRef where
  index : Nat
deriving DecidableEq, Inhabited

/-- A reference to the content of a byte string. -/
structure BytesRef where
  index : Nat
deriving DecidableEq, Inhabited

/-- A reference to an object's members. -/
structure InstanceRef where
  index : Nat
deriving DecidableEq, Inhabited

/-- A reference to a function of the script. -/
structure ClosureRef where
  index : Nat
deriving DecidableEq, Inhabited

/-- A reference to a function of the host or of the library. -/
structure NativeRef where
  index : Nat
deriving DecidableEq, Inhabited

/-- A reference to a value that only the host understands. -/
structure HostRef where
  index : Nat
deriving DecidableEq, Inhabited

structure TypeRef where
  index : Nat
deriving DecidableEq, Inhabited

structure ScopeRef where
  index : Nat
deriving DecidableEq, Inhabited

/-- A way to look at an object through another type than its own. Every view has its own tag. -/
structure View where
  tag : Nat
  type : TypeRef
deriving DecidableEq, Inhabited

/--
An object is an instance, seen through its own type or through a view. All views of an instance
share its members.
-/
structure Handle where
  real : InstanceRef
  view : Option View
deriving DecidableEq, Inhabited

namespace Handle

def ofInstance (ref : InstanceRef) : Handle := ⟨ref, none⟩

/-- The instance behind a view. -/
def realThis (h : Handle) : Handle := ⟨h.real, none⟩

/-- Whether two handles see the same members. -/
def sameInstance (a b : Handle) : Bool := a.real == b.real

end Handle

inductive Value where
  | undefined
  | nil
  | bool (value : Bool)
  | int (value : Int64)
  | float (value : Float)
  | decimal (value : Decimal)
  | str (text : String)
  | bytes (ref : BytesRef)
  | array (ref : ArrayRef)
  | object (handle : Handle)
  | func (ref : ClosureRef)
  | native (ref : NativeRef)
  /-- A callee with the receiver that it was read from. Every reading has its own tag. -/
  | bound (tag : Nat) (receiver : Value) (callee : Value)
  | type (ref : TypeRef)
  | host (ref : HostRef)

namespace Value

instance : Inhabited Value := ⟨.undefined⟩

def isUndefined : Value → Bool
  | .undefined => true
  | _ => false

def isNilOrUndefined : Value → Bool
  | .undefined | .nil => true
  | _ => false

/-- The kinds of values that can be called whatever their members are. -/
def isCallableKind : Value → Bool
  | .func _ | .native _ | .bound .. | .type _ => true
  | _ => false

/-- The kinds of values that refer to something that others can refer to as well. -/
def isShared : Value → Bool
  | .array _ | .object _ | .func _ | .native _ | .bound .. | .type _ | .host _ => true
  | _ => false

def int? : Value → Option Int64
  | .int i => some i
  | _ => none

def str? : Value → Option String
  | .str s => some s
  | _ => none

def object? : Value → Option Handle
  | .object h => some h
  | _ => none

/-- The callee of a bound value, and any other value as it is. -/
def unbind : Value → Value
  | .bound _ _ callee => callee
  | v => v

end Value

end ScriptEngine
