import ScriptEngine.Table
import ScriptEngine.Text.Quoted
import ScriptEngine.Value.Basic

/-!
This module contains the scopes of variables. A scope has bindings of its own and sees those of its
parent; closures share the scope that they were made in.
-/

namespace ScriptEngine

structure Scope where
  bindings : Table Value
  parent : Option ScopeRef
deriving Inhabited

/-- All scopes of a run. A scope is made after its parent. -/
structure Scopes where
  nodes : Array Scope
deriving Inhabited

/-- Why a name was not bound. -/
inductive BindError where
  /-- The scope has the name already. -/
  | redefined
  /-- No scope on the way outward has the name. -/
  | unbound
deriving DecidableEq, Inhabited

namespace Scopes

def empty : Scopes := ⟨#[]⟩

/-- The name that is never bound. -/
def placeholder : String := "_"

def add (t : Scopes) (parent : Option ScopeRef) : ScopeRef × Scopes :=
  (⟨t.nodes.size⟩, ⟨t.nodes.push ⟨.empty, parent⟩⟩)

/-- A new scope without a parent. -/
def newRoot (t : Scopes) : ScopeRef × Scopes := t.add none

/-- A new scope inside another one. -/
def newChild (t : Scopes) (parent : ScopeRef) : ScopeRef × Scopes := t.add (some parent)

def node (t : Scopes) (ref : ScopeRef) : Scope := t.nodes.getD ref.index default

def parent? (t : Scopes) (ref : ScopeRef) : Option ScopeRef := (t.node ref).parent

/-- The binding of a name in this scope only. -/
def own? (t : Scopes) (ref : ScopeRef) (name : String) : Option Value := (t.node ref).bindings.get? name

def resolve?.go (t : Scopes) (name : String) : Nat → ScopeRef → Option ScopeRef
  | 0, _ => none
  | fuel + 1, ref =>
    if (t.node ref).bindings.contains name then some ref
    else
      match (t.node ref).parent with
      | some parent => go t name fuel parent
      | none => none

/--
The nearest scope that binds a name, going outward. A scope is made after its parent, so there are
no more steps than scopes before it.
-/
def resolve? (t : Scopes) (ref : ScopeRef) (name : String) : Option ScopeRef :=
  if name = placeholder then none else resolve?.go t name (ref.index + 1) ref

/-- The value of a name in the nearest scope that binds it. -/
def lookup? (t : Scopes) (ref : ScopeRef) (name : String) : Option Value :=
  (t.resolve? ref name).bind fun s => t.own? s name

/-- Binds a name in this scope, whether it was bound or not. -/
def put (t : Scopes) (ref : ScopeRef) (name : String) (value : Value) : Scopes :=
  ⟨t.nodes.modify ref.index fun s => { s with bindings := s.bindings.put name value }⟩

/-- Binds a name in this scope, or leaves the placeholder as it is. -/
def force (t : Scopes) (ref : ScopeRef) (name : String) (value : Value) : Scopes :=
  if name = placeholder then t else t.put ref name value

/-- The scope in which a new name is to be bound; the placeholder is bound nowhere. -/
def defineTarget (t : Scopes) (ref : ScopeRef) (name : String) : Except BindError (Option ScopeRef) :=
  if name = placeholder then .ok none
  else if (t.node ref).bindings.contains name then .error .redefined
  else .ok (some ref)

/-- The scope whose binding of a name is to be written; the placeholder is bound nowhere. -/
def assignTarget (t : Scopes) (ref : ScopeRef) (name : String) : Except BindError (Option ScopeRef) :=
  if name = placeholder then .ok none
  else
    match t.resolve? ref name with
    | some s => .ok (some s)
    | none => .error .unbound

/-- Binds a name in the given scope, if there is one. -/
def putIn (t : Scopes) (target : Option ScopeRef) (name : String) (value : Value) : Scopes :=
  match target with
  | some ref => t.put ref name value
  | none => t

/-- Binds a name that this scope does not bind yet. -/
def define (t : Scopes) (ref : ScopeRef) (name : String) (value : Value) : Except BindError Scopes :=
  (t.defineTarget ref name).map fun target => t.putIn target name value

/-- Writes to the nearest binding of a name. -/
def assign (t : Scopes) (ref : ScopeRef) (name : String) (value : Value) : Except BindError Scopes :=
  (t.assignTarget ref name).map fun target => t.putIn target name value

/-- The number of names that this scope binds. -/
def size (t : Scopes) (ref : ScopeRef) : Nat := (t.node ref).bindings.size

/-- The description of a scope in diagnostics: its names in order. -/
def describe (t : Scopes) (ref : ScopeRef) : String :=
  let names := (t.node ref).bindings.keys.mergeSort fun a b => decide (a ≤ b)
  "SharedScope \x7b bindings: [" ++ ", ".intercalate (names.map Text.quoted) ++ "], has_parent: " ++
    (if (t.node ref).parent.isSome then "true" else "false") ++ " \x7d"

end Scopes

end ScriptEngine
