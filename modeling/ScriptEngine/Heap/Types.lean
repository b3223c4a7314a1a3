import ScriptEngine.Value.Members

/-!
This module contains types: classes of the script, classes of the host, and the types that every
engine has. A type has members, which its instances see, statics, which belong to the type itself,
and bases, in which both are looked up further.
-/

namespace ScriptEngine

/-- The types that every engine has. -/
inductive BuiltinType where
  | undefined | nil | int | float | decimal | bool | str | bytes | func | array | object | type | host
deriving DecidableEq, Inhabited

namespace BuiltinType

def all : List BuiltinType :=
  [undefined, nil, int, float, decimal, bool, str, bytes, func, array, object, type, host]

def name : BuiltinType → String
  | undefined => "Undefined"
  | nil => "Nil"
  | int => "Int"
  | float => "Float"
  | decimal => "BigNum"
  | bool => "Bool"
  | str => "Str"
  | bytes => "Bytes"
  | func => "Func"
  | array => "Array"
  | object => "Object"
  | type => "Type"
  | host => "HostValue"

/-- The number of a type. It is part of the names under which extensions are exported. -/
def id : BuiltinType → Int
  | undefined => 0
  | nil => 1
  | int => 2
  | float => 3
  | decimal => 4
  | bool => 5
  | str => 6
  | bytes => 7
  | func => 8
  | array => 9
  | object => 10
  | type => 12
  | host => 13

/-- The place of a type in the table of types. -/
def ref : BuiltinType → TypeRef
  | undefined => ⟨0⟩
  | nil => ⟨1⟩
  | int => ⟨2⟩
  | float => ⟨3⟩
  | decimal => ⟨4⟩
  | bool => ⟨5⟩
  | str => ⟨6⟩
  | bytes => ⟨7⟩
  | func => ⟨8⟩
  | array => ⟨9⟩
  | object => ⟨10⟩
  | type => ⟨11⟩
  | host => ⟨12⟩

end BuiltinType

structure TypeNode where
  id : Int
  name : String
  bases : List TypeRef
  members : Members
  statics : Members
  /-- The type through which `super` looks members up, once it was asked for. -/
  superView : Option TypeRef
deriving Inhabited

namespace TypeNode

/-- A type without members. It knows its own name. -/
def new (id : Int) (name : String) (bases : List TypeRef) : TypeNode where
  id := id
  name := name
  bases := bases
  members := .empty
  statics := Members.ofList [("__name__", .str name)]
  superView := none

end TypeNode

/-- All types of a run. A type is made after its bases. -/
structure Types where
  nodes : Array TypeNode
  /-- The number of the class made last. -/
  lastId : Int
deriving Inhabited

namespace Types

/-- The types that every engine has. Classes are numbered from after `lastId`. -/
def builtin (lastId : Int) : Types :=
  ⟨(BuiltinType.all.map fun b => TypeNode.new b.id b.name []).toArray, lastId⟩

def node (t : Types) (ref : TypeRef) : TypeNode := t.nodes.getD ref.index default

def id (t : Types) (ref : TypeRef) : Int := (t.node ref).id

def name (t : Types) (ref : TypeRef) : String := (t.node ref).name

def bases (t : Types) (ref : TypeRef) : List TypeRef := (t.node ref).bases

def add (t : Types) (node : TypeNode) : TypeRef × Types :=
  (⟨t.nodes.size⟩, { t with nodes := t.nodes.push node })

/-- A new class with a number of its own. A class without bases is an object. -/
def newClass (t : Types) (name : String) (bases : List TypeRef) : TypeRef × Types :=
  let bases := if bases.isEmpty then [BuiltinType.object.ref] else bases
  let id := t.lastId + 1
  { t with lastId := id }.add (.new id name bases)

/-- The member that a type declares itself. -/
def ownMember? (t : Types) (ref : TypeRef) (name : String) : Option Value := (t.node ref).members.get? name

def findMember?.go (t : Types) (name : String) : Nat → TypeRef → Option Value
  | 0, _ => none
  | fuel + 1, ref =>
    match t.ownMember? ref name with
    | some value => some value
    | none => (t.bases ref).findSome? fun base => go t name fuel base

/--
The member of a type or of its bases, depth first and from left to right. A type is made after its
bases, so the search is no deeper than there are types before it.
-/
def findMember? (t : Types) (ref : TypeRef) (name : String) : Option Value :=
  findMember?.go t name (ref.index + 1) ref

def setMember (t : Types) (ref : TypeRef) (name : String) (value : Value) : Types :=
  { t with nodes := t.nodes.modify ref.index fun n => { n with members := Members.set n.members name value } }

def setMembers (t : Types) (ref : TypeRef) (entries : List (String × Value)) : Types :=
  entries.foldl (fun t e => t.setMember ref e.1 e.2) t

def memberNames (t : Types) (ref : TypeRef) : List String := (t.node ref).members.keys

/-- The static that a type declares itself. -/
def ownStatic? (t : Types) (ref : TypeRef) (name : String) : Option Value := (t.node ref).statics.get? name

def setStatic (t : Types) (ref : TypeRef) (name : String) (value : Value) : Types :=
  { t with nodes := t.nodes.modify ref.index fun n => { n with statics := Members.set n.statics name value } }

def setStatics (t : Types) (ref : TypeRef) (entries : List (String × Value)) : Types :=
  entries.foldl (fun t e => t.setStatic ref e.1 e.2) t

def isSubOf.go (t : Types) (id : Int) : Nat → TypeRef → Bool
  | 0, _ => false
  | fuel + 1, ref => t.id ref == id || (t.bases ref).any fun base => go t id fuel base

/-- Whether a type is another one or derives from it. -/
def isSubOf (t : Types) (ref other : TypeRef) : Bool := isSubOf.go t (t.id other) (ref.index + 1) ref

/-- Whether a type is the one that `super` uses in the methods of some class. -/
def isSuperView (t : Types) (ref : TypeRef) : Bool := t.id ref < 0

/-- Notes the type that `super` uses in the methods of a class. -/
def setSuperView (t : Types) (ref view : TypeRef) : Types :=
  { t with nodes := t.nodes.modify ref.index fun n => { n with superView := some view } }

end Types

/-- The members that scripts add to existing types, by the number of the type. -/
structure Extensions where
  entries : List ((Int × String) × Value)
deriving Inhabited

namespace Extensions

def empty : Extensions := ⟨[]⟩

def get? (x : Extensions) (id : Int) (name : String) : Option Value := x.entries.lookup (id, name)

/-- Adds a member to a type. The last one counts. -/
def insert (x : Extensions) (id : Int) (name : String) (value : Value) : Extensions :=
  ⟨((id, name), value) :: x.entries.filter fun e => e.1 != (id, name)⟩

def find?.go (x : Extensions) (t : Types) (name : String) : Nat → TypeRef → Option Value
  | 0, _ => none
  | fuel + 1, ref =>
    match x.get? (t.id ref) name with
    | some value => some value
    | none => (t.bases ref).findSome? fun base => go x t name fuel base

/-- The member that was added to a type or to one of its bases, depth first and from left to right. -/
def find? (x : Extensions) (t : Types) (ref : TypeRef) (name : String) : Option Value :=
  find?.go x t name (ref.index + 1) ref

end Extensions

end ScriptEngine
