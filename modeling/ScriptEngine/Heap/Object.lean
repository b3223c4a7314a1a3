import ScriptEngine.Heap.Basic

/-!
This module contains objects with all that they are made of: a type, a table of members, a slot for what the host
keeps, and in a view the link to the instance. Tables and slots stand behind references, so that objects can share
them. The heap has a shorter form for the same objects.
-/

namespace ScriptEngine

structure TableRef where
  index : Nat
deriving DecidableEq, Inhabited

structure SlotRef where
  index : Nat
deriving DecidableEq, Inhabited

/-- An object. In a view, `this` is the instance. -/
structure Object where
  type : TypeRef
  members : TableRef
  reserved : SlotRef
  this : Option Object

namespace Object

/-- The instance behind a view, or the object itself. -/
def realThis (o : Object) : Object := o.this.getD o

/-- A view of the object through another type. -/
def viewAs (o : Object) (type : TypeRef) : Object where
  type := type
  members := o.members
  reserved := o.reserved
  this := some o.realThis

/-- Whether both objects have the same table of members. -/
def sameInstance (a b : Object) : Bool := a.members == b.members

end Object

/-- The tables and the slots behind objects. -/
structure Objects where
  tables : Array Members
  slots : Array (Option Payload)

namespace Objects

def empty : Objects := ⟨#[], #[]⟩

/-- A new instance, with a table and a slot of its own. -/
def withMembers (s : Objects) (type : TypeRef) (members : Members) : Object × Objects :=
  ({ type := type, members := ⟨s.tables.size⟩, reserved := ⟨s.slots.size⟩, this := none },
    { tables := s.tables.push members, slots := s.slots.push none })

def members (s : Objects) (o : Object) : Members := s.tables.getD o.members.index .empty

def reserved? (s : Objects) (o : Object) : Option Payload := s.slots.getD o.reserved.index none

/-- Writes a member. -/
def setMember (s : Objects) (o : Object) (name : String) (value : Value) : Objects :=
  { s with tables := s.tables.modify o.members.index fun members => Members.set members name value }

def setReserved (s : Objects) (o : Object) (payload : Payload) : Objects :=
  { s with slots := s.slots.modify o.reserved.index fun _ => some payload }

end Objects

namespace Heap

/-- The tables and the slots of all instances. -/
def objects (h : Heap) : Objects where
  tables := h.instances.map Instance.members
  slots := h.instances.map Instance.reserved

/-- The instance that a handle leads to. -/
def instanceOf (h : Heap) (handle : Handle) : Object where
  type := (h.inst handle).type
  members := ⟨handle.real.index⟩
  reserved := ⟨handle.real.index⟩
  this := none

/-- The object that a handle stands for. -/
def object (h : Heap) (handle : Handle) : Object :=
  match handle.view with
  | none => h.instanceOf handle
  | some view => (h.instanceOf handle).viewAs view.type

end Heap

end ScriptEngine
