import ScriptEngine.Eval.Class
import ScriptEngine.Eval.Exception
import ScriptEngine.Eval.Frame
import ScriptEngine.Eval.Modules
import ScriptEngine.Eval.Spawn
import ScriptEngine.Proofs.Lasting

/-!
This module contains what the rules of evaluation are made of. Every rule is written over a machine,
and here it is run over two of them side by side: `Parallel m m' l x x'` says that `x` and `x'` take
the same steps, one over `m` and the other over `m'`, and that none of these steps does more than
the level `l` allows. What holds of all steps then holds of all rules by one induction.
-/

namespace ScriptEngine

/-- What a computation may do to the context that it runs in. -/
inductive Level where
  /-- Nothing. -/
  | call
  /-- It may define names in the current scope and put calls off. -/
  | expr
  /-- It may also leave a value and a signal. -/
  | stmt
deriving DecidableEq

/-- What a step that makes or changes something leaves of the heap. -/
structure Heap.Spares (h h' : Heap) : Prop where
  scopes : h'.scopes = h.scopes
  keeps : h.Keeps h'

namespace Heap.Spares

variable (h : Heap)

theorem refl : h.Spares h := ⟨rfl, .refl h⟩

theorem newArray (items : Array Value) : h.Spares (h.newArray items).2 := ⟨rfl, .ofSame ⟨rfl, rfl, rfl, rfl⟩⟩

theorem emptyArray : h.Spares h.emptyArray.2 := newArray h #[]

theorem newBytes (data : Array UInt8) : h.Spares (h.newBytes data).2 := ⟨rfl, .ofSame ⟨rfl, rfl, rfl, rfl⟩⟩

theorem newTag : h.Spares h.newTag.2 := ⟨rfl, .ofSame ⟨rfl, rfl, rfl, rfl⟩⟩

theorem viewAs (handle : Handle) (type : TypeRef) : h.Spares (h.viewAs handle type).2 := newTag h

theorem newInstance (type : TypeRef) (members : Members) : h.Spares (h.newInstance type members).2 :=
  ⟨rfl, .newInstance h type members⟩

theorem newObject (members : Members) : h.Spares (h.newObject members).2 := newInstance h _ members

theorem modifyItems (ref : ArrayRef) (f : Array Value → Array Value) : h.Spares (h.modifyItems ref f) :=
  ⟨rfl, .ofSame ⟨rfl, rfl, rfl, rfl⟩⟩

theorem modifyData (ref : BytesRef) (f : Array UInt8 → Array UInt8) : h.Spares (h.modifyData ref f) :=
  ⟨rfl, .ofSame ⟨rfl, rfl, rfl, rfl⟩⟩

theorem setMember (handle : Handle) (name : String) (value : Value) : h.Spares (h.setMember handle name value) :=
  ⟨rfl, .setMember h handle name value⟩

theorem setMembers (handle : Handle) (entries : List (String × Value))
    : h.Spares (entries.foldl (fun h e => h.setMember handle e.1 e.2) h) := by
  induction entries generalizing h with
  | nil => exact refl h
  | cons e entries ih =>
    have hset := setMember h handle e.1 e.2
    have hrest := ih (h.setMember handle e.1 e.2)
    exact ⟨hrest.scopes.trans hset.scopes, hset.keeps.trans hrest.keeps⟩

theorem setStatics (ref : TypeRef) (statics : List (String × Value))
    : h.Spares { h with types := h.types.setStatics ref statics } :=
  ⟨rfl, .setStatics h ref statics⟩

theorem superView (handle : Handle) (owner : TypeRef) : h.Spares (h.superView handle owner).2 := by
  refine ⟨?_, .superView h handle owner⟩
  show (h.superType owner).2.scopes = h.scopes
  unfold superType
  split
  . rfl
  . split
    . rfl
    . rfl

end Heap.Spares

theorem Level.stmt_ne_call : Level.stmt ≠ .call := nofun

theorem Level.expr_ne_call : Level.expr ≠ .call := nofun

namespace Run

variable {α : Type}

/-- A computation that changes nothing but the heap, and not even that if it fails. -/
def OnlyHeap (x : Run α) : Prop :=
  ∀ s, (∃ a heap, x s = .ok a { s with heap := heap }) ∨ ∃ e, x s = .error (.raised e) s

/-- A computation that makes a scope and changes nothing but the heap, where the other scopes stay. -/
def OpensScope (x : Run α) (scope : α → ScopeRef) : Prop :=
  ∀ s, ∃ a heap, x s = .ok a { s with heap := heap } ∧ s.heap.scopes.Opened heap.scopes (scope a) ∧
    s.heap.Keeps heap

theorem OpensScope.onlyHeap {x : Run α} {scope : α → ScopeRef} (h : x.OpensScope scope) : x.OnlyHeap := by
  intro s
  rcases h s with ⟨a, heap, h, _⟩
  exact .inl ⟨a, heap, h⟩

theorem alloc_onlyHeap (f : Heap → α × Heap) : (alloc f).OnlyHeap := by
  intro s
  exact .inl ⟨_, _, rfl⟩

theorem modifyHeap_onlyHeap (f : Heap → Heap) : (modifyHeap f).OnlyHeap := alloc_onlyHeap fun h => ((), f h)

theorem forceLocal_onlyHeap (name : String) (value : Value) : (forceLocal name value).OnlyHeap := by
  intro s
  exact .inl ⟨_, _, rfl⟩

theorem defineLocal_onlyHeap (name : String) (value : Value) : (defineLocal name value).OnlyHeap := by
  intro s
  rw [defineLocal_apply]
  split
  . exact .inl ⟨_, _, rfl⟩
  . exact .inr ⟨_, rfl⟩

theorem assignVar_onlyHeap (name : String) (value : Value) : (assignVar name value).OnlyHeap := by
  intro s
  rw [assignVar_apply]
  split
  . exact .inl ⟨_, _, rfl⟩
  . exact .inr ⟨_, rfl⟩

end Run

inductive Parallel (m m' : Machine) : Level → {α : Type} → Run α → Run α → Prop where
  | pure {l : Level} {α : Type} (a : α) : Parallel m m' l (pure a) (pure a)
  | bind {l : Level} {α β : Type} {x x' : Run α} {f f' : α → Run β}
      (hx : Parallel m m' l x x') (hf : ∀ a, Parallel m m' l (f a) (f' a))
      : Parallel m m' l (x >>= f) (x' >>= f')
  | read {l : Level} {α : Type} (f : State → α)
      : Parallel m m' l (fun s => .ok (f s) s) (fun s => .ok (f s) s)
  /-- An error that arises here, so that nothing is known yet about where it did. -/
  | raiseError {l : Level} {α : Type} (e : Error) (he : e.backtrace = none)
      : Parallel m m' l (Run.raiseError e : Run α) (Run.raiseError e)
  | exhausted {l : Level} {α : Type} : Parallel m m' l (Run.exhausted : Run α) Run.exhausted
  | alloc {l : Level} {α : Type} (f : Heap → α × Heap) (hf : ∀ h : Heap, h.Spares (f h).2)
      : Parallel m m' l (Run.alloc f) (Run.alloc f)
  /-- A class. Its members are evaluated while it has none. -/
  | declare {l : Level} (name : String) (bases : List TypeRef) {x x' : TypeRef → Run (List (String × Value))}
      (hx : ∀ type, Parallel m m' l (x type) (x' type))
      : Parallel m m' l (Run.declare name bases x) (Run.declare name bases x')
  | modifyWorld {l : Level} (f : World → World)
      (hf : ∀ w, (f w).settings = w.settings ∧ (f w).globals = w.globals ∧ (f w).modules = w.modules)
      : Parallel m m' l (Run.modifyWorld f) (Run.modifyWorld f)
  | forceLocal {l : Level} (hl : l ≠ .call) (name : String) (value : Value)
      : Parallel m m' l (Run.forceLocal name value) (Run.forceLocal name value)
  | defineLocal {l : Level} (hl : l ≠ .call) (name : String) (value : Value)
      : Parallel m m' l (Run.defineLocal name value) (Run.defineLocal name value)
  | assignVar {l : Level} (name : String) (value : Value)
      : Parallel m m' l (Run.assignVar name value) (Run.assignVar name value)
  | keep {l : Level} (held : Held) (hheld : held.waiting? = none)
      : Parallel m m' l (Run.keep held) (Run.keep held)
  | lettingGo {l : Level} {α : Type} {x x' : Run α} (hx : Parallel m m' l x x')
      : Parallel m m' l (Run.lettingGo x) (Run.lettingGo x')
  /-- A body whose error gets the current position. -/
  | locating {l : Level} {α : Type} {x x' : Run α} (hx : Parallel m m' l x x')
      : Parallel m m' l (Run.locating x) (Run.locating x')
  /-- A body and what runs after it. An error that is not handled passes, and so does every fatal one. -/
  | capture {l : Level} {α β : Type} {x x' : Run α} {k k' : Except Error α → Run β} (handles : Error → Bool)
      (hx : Parallel m m' l x x') (hok : ∀ a, Parallel m m' l (k (.ok a)) (k' (.ok a)))
      (hpass : ∀ e, handles e = false → k (.error e) = Run.raiseError e ∧ k' (.error e) = Run.raiseError e)
      (hhandle : ∀ e, handles e = true → Parallel m m' l (k (.error e)) (k' (.error e)))
      (hfatal : ∀ e, e.isFatal = true → handles e = false)
      : Parallel m m' l (Run.capture x >>= k) (Run.capture x' >>= k')
  /-- A body in a block of its own. -/
  | withBlock {l : Level} {α : Type} {x x' : Run α} (hx : Parallel m m' l x x')
      : Parallel m m' l (m.withBlock x) (m'.withBlock x')
  /-- A call of a function, unless there are too many. The caller's context is kept from its body. -/
  | function {l : Level} {σ : Type} {x : Run σ} {body body' : σ → Run Unit} (name : σ → String)
      (scope : σ → ScopeRef) (hx : x.OpensScope scope) (hb : ∀ a, Parallel m m' .stmt (body a) (body' a))
      : Parallel m m' l (do Run.checkDepth; let a ← x; m.withCall (name a) (scope a) (body a))
          (do Run.checkDepth; let a ← x; m'.withCall (name a) (scope a) (body' a))
  | deeper {l : Level} {σ α : Type} {x x' : Run σ} {f f' : σ → Run α} (hx : Parallel m m' .call x x')
      (hf : ∀ a, Parallel m m' .call (f a) (f' a))
      : Parallel m m' l (do Run.checkDepth; let a ← x; Run.deeper (f a))
          (do Run.checkDepth; let a ← x'; Run.deeper (f' a))
  | invoke {l : Level} (callee this : Value) (args : List Value)
      : Parallel m m' l (m.invoke callee this args) (m'.invoke callee this args)
  | native {l : Level} (call : HostCall) (this : Value) (args : List Value)
      : Parallel m m' l (m.native call this args) (m'.native call this args)
  | importModule {l : Level} (name : String) (forceReload : Bool)
      : Parallel m m' l (m.importModule name forceReload) (m'.importModule name forceReload)
  | spawn {l : Level} (callee : Value) (args : List Value)
      : Parallel m m' l (m.spawn callee args) (m'.spawn callee args)
  | eval {l : Level} (hl : l ≠ .call) (e : Expr) : Parallel m m' l (m.eval e) (m'.eval e)
  | addBlockDefer {l : Level} (hl : l ≠ .call) (callee : Value) (args : List Value) (isOptional : Bool)
      : Parallel m m' l (Run.addBlockDefer callee args isOptional) (Run.addBlockDefer callee args isOptional)
  | exec (stmt : Stmt) : Parallel m m' .stmt (m.exec stmt) (m'.exec stmt)
  | addDefer (callee : Value) (args : List Value)
      : Parallel m m' .stmt (Run.addDefer callee args) (Run.addDefer callee args)
  | setFlow (flow : Flow) : Parallel m m' .stmt (Run.setFlow flow) (Run.setFlow flow)
  | setRetVal (value : Value) : Parallel m m' .stmt (Run.setRetVal value) (Run.setRetVal value)
  | setPosition (pos : Position) : Parallel m m' .stmt (Run.setPosition pos) (Run.setPosition pos)

/-- Two machines whose loops may go round equally often. -/
class SameFuel (m m' : Machine) : Prop where
  fuel_eq : m.fuel = m'.fuel

instance (m : Machine) : SameFuel m m := ⟨rfl⟩

theorem fuel_eq (m m' : Machine) [h : SameFuel m m'] : m.fuel = m'.fuel := h.fuel_eq

namespace Parallel

variable {m m' : Machine} {l : Level} {α β : Type}

theorem raise (cause : Cause) : Parallel m m' l (Run.raise cause : Run α) (Run.raise cause) := by
  apply raiseError
  rfl

theorem fail (message : String) : Parallel m m' l (Run.fail message : Run α) (Run.fail message) := by
  apply raise

theorem ite {c : Prop} [Decidable c] {x x' y y' : Run α} (hx : Parallel m m' l x x')
    (hy : Parallel m m' l y y')
    : Parallel m m' l (if c then x else y) (if c then x' else y') := by
  split
  . exact hx
  . exact hy

theorem ofOption (o : Option α) : Parallel m m' l (Run.ofOption o) (Run.ofOption o) := by
  cases o with
  | none => exact exhausted
  | some a => exact .pure a

theorem ofExcept (r : Except Cause α) : Parallel m m' l (Run.ofExcept r) (Run.ofExcept r) := by
  cases r with
  | ok a => exact .pure a
  | error cause => exact raise cause

theorem getHeap : Parallel m m' l Run.getHeap Run.getHeap := read fun s => s.heap

theorem getWorld : Parallel m m' l Run.getWorld Run.getWorld := read fun s => s.world

theorem getSettings : Parallel m m' l Run.getSettings Run.getSettings := read fun s => s.world.settings

theorem getStack : Parallel m m' l Run.getStack Run.getStack := read fun s => s.context.stack

theorem currentScope : Parallel m m' l Run.currentScope Run.currentScope :=
  read fun s => s.context.stack.top.scope

theorem flow : Parallel m m' l Run.flow Run.flow := read fun s => s.context.flow

theorem retVal : Parallel m m' l Run.retVal Run.retVal := read fun s => s.context.retVal

theorem exports : Parallel m m' l Run.exports Run.exports := read fun s => s.context.exports

theorem modifyHeap (f : Heap → Heap) (hf : ∀ h : Heap, h.Spares (f h))
    : Parallel m m' l (Run.modifyHeap f) (Run.modifyHeap f) :=
  alloc (fun h => ((), f h)) hf

theorem hold (value : Value) : Parallel m m' l (Run.hold value) (Run.hold value) := by
  unfold Run.hold
  apply ite
  . exact keep _ rfl
  . apply Parallel.pure

theorem holdAll (values : List Value) : Parallel m m' l (Run.holdAll values) (Run.holdAll values) := by
  unfold Run.holdAll
  apply ite
  . apply Parallel.pure
  . exact keep _ rfl

theorem newArray (items : Array Value) : Parallel m m' l (Run.newArray items) (Run.newArray items) := by
  apply alloc
  intro h
  exact .newArray h items

theorem newBytes (data : Array UInt8) : Parallel m m' l (Run.newBytes data) (Run.newBytes data) := by
  apply alloc
  intro h
  exact .newBytes h data

theorem newNative (native : Native) : Parallel m m' l (Run.newNative native) (Run.newNative native) := by
  apply alloc
  intro h
  exact ⟨rfl, .newNative h native⟩

theorem newClosure (closure : Closure) : Parallel m m' l (Run.newClosure closure) (Run.newClosure closure) := by
  apply alloc
  intro h
  exact ⟨rfl, .newClosure h closure⟩

theorem newObject (entries : List (String × Value))
    : Parallel m m' l (Run.newObject entries) (Run.newObject entries) := by
  unfold Run.newObject
  apply bind
  . apply alloc
    intro h
    exact .newObject h _
  . intro handle
    apply Parallel.pure

theorem mismatch (expected : String) (got : Value)
    : Parallel m m' l (Run.mismatch expected got : Run α) (Run.mismatch expected got) := by
  unfold Run.mismatch
  apply bind getHeap
  intro heap
  apply raise

theorem takeFlow : Parallel m m' .stmt Run.takeFlow Run.takeFlow := by
  unfold Run.takeFlow
  apply bind flow
  intro f
  apply bind (setFlow .normal)
  intro
  apply Parallel.pure

theorem finishFlow : Parallel m m' .stmt Run.finishFlow Run.finishFlow := by
  unfold Run.finishFlow
  apply bind takeFlow
  intro f
  cases f with
  | normal => exact .pure ()
  | ret => exact .pure ()
  | jump kind label =>
    let e := Error.ofCause (.unmatchedJump kind label)
    show Parallel m m' .stmt (Run.locating (Run.raiseError e)) (Run.locating (Run.raiseError e))
    exact locating (raiseError e rfl)

theorem setExport (name : String) (value : Value)
    : Parallel m m' l (Run.setExport name value) (Run.setExport name value) := by
  unfold Run.setExport
  apply bind exports
  intro handle
  apply modifyHeap
  intro h
  exact .setMember h handle name value

theorem lookup (name : String) : Parallel m m' l (Run.lookup name) (Run.lookup name) :=
  read fun s => (s.heap.scopes.lookup? s.context.stack.top.scope name).getD .undefined

theorem evalHeld (hl : l ≠ .call) (e : Expr) : Parallel m m' l (m.evalHeld e) (m'.evalHeld e) := by
  unfold Machine.evalHeld
  apply bind (eval hl e)
  intro value
  apply bind (hold value)
  intro
  apply Parallel.pure

theorem evalType (hl : l ≠ .call) (expected : String) (e : Expr)
    : Parallel m m' l (m.evalType expected e) (m'.evalType expected e) := by
  unfold Machine.evalType
  apply bind (eval hl e)
  intro value
  apply bind (hold _)
  intro
  split
  . apply Parallel.pure
  . apply mismatch

theorem mapM {f f' : α → Run β} (h : ∀ a, Parallel m m' l (f a) (f' a)) (as : List α)
    : Parallel m m' l (as.mapM f) (as.mapM f') := by
  induction as with
  | nil => exact .pure []
  | cons a as ih =>
    simp only [List.mapM_cons]
    apply bind (h a)
    intro b
    apply bind ih
    intro bs
    apply Parallel.pure

end Parallel

end ScriptEngine
