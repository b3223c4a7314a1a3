import ScriptEngine.Heap.Retention
import ScriptEngine.State.Frames

/-!
This module contains what keeps the cells of the heap in use from outside: the frames of all
contexts, what evaluations in progress hold on to, and everything that an engine keeps from one run
to the next.
-/

namespace ScriptEngine

def Deferred.cells (call : Deferred) : List Cell := call.callee.cells ++ call.args.flatMap Value.cells

def Frame.cells (f : Frame) : List Cell := .scope f.scope :: f.defers.flatMap Deferred.cells

def Context.cells (c : Context) : List Cell :=
  c.stack.frames.flatMap Frame.cells ++ c.retVal.cells ++ (Value.object c.exports).cells

def World.cells (w : World) : List Cell :=
  .scope w.globals :: .type w.threadType :: BuiltinType.all.map (fun b => Cell.type b.ref) ++
    w.extensions.entries.flatMap (fun e => e.2.cells) ++
    w.modules.entries.flatMap fun e => e.2.value.cells

def Held.cells : Held → List Cell
  | .value v => v.cells
  | .values vs => vs.flatMap Value.cells
  | .entries es => es.flatMap fun e => e.2.cells
  | .calls cs => cs.flatMap Deferred.cells
  | .context c => c.cells

/-- The cells that are referred to from outside of the heap. -/
def State.roots (s : State) : List Cell :=
  s.context.cells ++ s.world.cells ++ s.held.flatMap Held.cells

/-- Whether a cell is still in use, by the state or by some further cells. -/
def Run.inUse (cell : Cell) (others : List Cell) : Run Bool := fun s =>
  .ok (s.heap.inUse (others ++ s.roots) cell) s

end ScriptEngine
