import ScriptEngine.Heap.Basic

/-!
This module contains what of the heap is still in use. A cell is released as soon as nothing refers
to it but cells that were released before. So cells that refer to each other in a circle stay in use,
whether anything else refers to them or not.
-/

namespace ScriptEngine

/-- A part of the heap that other parts can refer to. -/
inductive Cell where
  | array (ref : ArrayRef)
  | object (ref : InstanceRef)
  | closure (ref : ClosureRef)
  | native (ref : NativeRef)
  | host (ref : HostRef)
  | type (ref : TypeRef)
  | scope (ref : ScopeRef)
deriving DecidableEq, Inhabited

/-- The cells that a value refers to. -/
def Value.cells : Value → List Cell
  | .array ref => [.array ref]
  | .object handle => .object handle.real :: handle.view.toList.map fun view => .type view.type
  | .func ref => [.closure ref]
  | .native ref => [.native ref]
  | .bound _ receiver callee => receiver.cells ++ callee.cells
  | .type ref => [.type ref]
  | .host ref => [.host ref]
  | .undefined | .nil | .bool _ | .int _ | .float _ | .decimal _ | .str _ | .bytes _ => []

def PendingArg.cells : PendingArg → List Cell
  | .positional value | .keyword _ value | .spread value => value.cells
  | .hole _ => []

def HostCall.cells (call : HostCall) : List Cell := call.captured.flatMap Value.cells

def Routine.cells : Routine → List Cell
  | .partialCall callee args _ => callee.cells ++ args.flatMap PendingArg.cells
  | .superInit bases => bases.map Cell.type
  | .iterator next => next.cells
  | .step next ended => .array ended :: next.cells
  | .host call | .hostMethod call | .hostInit call => call.cells
  | .builtin _ | .method _ | .must | .notNil | .join | .joinError => []

def Error.cells (e : Error) : List Cell := e.payload.toList.flatMap Value.cells

def Payload.cells : Payload → List Cell
  | .number _ => []
  | .value v => v.cells
  | .outcome (.ok v) => v.cells
  | .outcome (.error e) => e.cells

def Members.cells (m : Members) : List Cell := m.entries.flatMap fun e => e.2.cells

def TypeNode.cells (n : TypeNode) : List Cell :=
  (n.bases ++ n.superView.toList).map Cell.type ++ Members.cells n.members ++ Members.cells n.statics

namespace Heap

/-- The cells that a cell refers to. A function does not keep the class that it was declared in. -/
def references (h : Heap) : Cell → List Cell
  | .array ref => (h.items ref).toList.flatMap Value.cells
  | .object ref =>
    let i := h.instances.getD ref.index default
    .type i.type :: Members.cells i.members ++ i.reserved.toList.flatMap Payload.cells
  | .closure ref => [.scope (h.closure ref).scope]
  | .native ref => (h.native ref).routine.cells
  | .host ref => (h.host ref).payload.cells
  | .type ref => (h.types.node ref).cells
  | .scope ref =>
    let s := h.scopes.node ref
    s.parent.toList.map Cell.scope ++ s.bindings.entries.flatMap fun e => e.2.cells

/-- All cells, one kind after another. -/
def cells (h : Heap) : List Cell :=
  (List.range h.arrays.size).map (fun i => .array ⟨i⟩) ++
  (List.range h.instances.size).map (fun i => .object ⟨i⟩) ++
  (List.range h.closures.size).map (fun i => .closure ⟨i⟩) ++
  (List.range h.natives.size).map (fun i => .native ⟨i⟩) ++
  (List.range h.hosts.size).map (fun i => .host ⟨i⟩) ++
  (List.range h.types.nodes.size).map (fun i => .type ⟨i⟩) ++
  (List.range h.scopes.nodes.size).map fun i => .scope ⟨i⟩

/-- The place of a cell among all cells. -/
def place (h : Heap) : Cell → Nat
  | .array ref => ref.index
  | .object ref => h.arrays.size + ref.index
  | .closure ref => h.arrays.size + h.instances.size + ref.index
  | .native ref => h.arrays.size + h.instances.size + h.closures.size + ref.index
  | .host ref => h.arrays.size + h.instances.size + h.closures.size + h.natives.size + ref.index
  | .type ref =>
    h.arrays.size + h.instances.size + h.closures.size + h.natives.size + h.hosts.size + ref.index
  | .scope ref =>
    h.arrays.size + h.instances.size + h.closures.size + h.natives.size + h.hosts.size +
      h.types.nodes.size + ref.index

/-- Counts references to cells. -/
def addUses (h : Heap) (uses : Array Nat) (cells : List Cell) : Array Nat :=
  cells.foldl (fun uses cell => uses.modify (h.place cell) (· + 1)) uses

/-- How many references there are to every cell, where `roots` are what is referred to from outside. -/
def countUses (h : Heap) (roots : List Cell) : Array Nat :=
  let cells := h.cells
  cells.foldl (fun uses cell => h.addUses uses (h.references cell))
    (h.addUses (Array.replicate cells.length 0) roots)

/-- Takes references to cells back, and adds the cells that have none left to those to be released. -/
def dropUses (h : Heap) (uses : Array Nat) (pending : List Cell) : List Cell → Array Nat × List Cell
  | [] => (uses, pending)
  | cell :: cells =>
    let place := h.place cell
    let uses := uses.modify place (· - 1)
    h.dropUses uses (if uses.getD place 0 = 0 then cell :: pending else pending) cells

def usesLeft.go (h : Heap) : Nat → Array Nat → List Cell → Array Nat
  | 0, uses, _ => uses
  | _, uses, [] => uses
  | fuel + 1, uses, cell :: pending =>
    let (uses, pending) := h.dropUses uses pending (h.references cell)
    go h fuel uses pending

/--
How many references to every cell are left when all are released that can be. A cell is released at
most once, so there are no more steps than cells.
-/
def usesLeft (h : Heap) (roots : List Cell) : Array Nat :=
  let uses := h.countUses roots
  usesLeft.go h uses.size uses (h.cells.filter fun cell => uses.getD (h.place cell) 0 = 0)

/-- Whether a cell is still in use, where `roots` are what is referred to from outside. -/
def inUse (h : Heap) (roots : List Cell) (cell : Cell) : Bool :=
  0 < (h.usesLeft roots).getD (h.place cell) 0

end Heap

end ScriptEngine
