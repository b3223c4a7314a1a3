import ScriptEngine.Engine.Setup
import ScriptEngine.Proofs.Frame
import ScriptEngine.Proofs.Parallel.Library

/-!
This module contains what evaluations leave of the heap, and machines that do the same until something happens. A
relation of heaps that holds of every step holds of every evaluation, however it ends. If two machines differ only from
a certain heap on, then an evaluation that they end in different ways has come from an earlier heap to that one.
-/

namespace ScriptEngine

/-- What every step keeps of the heap, and a property of heaps that come before others that have it. -/
structure Heap.Track (R : Heap → Heap → Prop) (P : Heap → Prop) : Prop where
  ofKeeps {h h' : Heap} (hkeeps : h.Keeps h') : R h h'
  trans {h h' h'' : Heap} (h1 : R h h') (h2 : R h' h'') : R h h''
  before {h h' : Heap} (hr : R h h') (hp : P h') : P h
  /-- A class gets its members when all of them were evaluated. -/
  declare {h h' : Heap} {name : String} {bases : List TypeRef} (hr : R (h.newClass name bases).2 h')
    (members : List (String × Value))
    : R h { h' with types := h'.types.setMembers (h.newClass name bases).1 members }

theorem Heap.Keeps.track {P : Heap → Prop} (hbefore : ∀ {h h' : Heap}, h.Keeps h' → P h' → P h)
    : Heap.Track Heap.Keeps P where
  ofKeeps hkeeps := hkeeps
  trans h1 h2 := h1.trans h2
  before := hbefore
  declare hr members := .declare hr members

namespace Run

variable {α β : Type} {R : Heap → Heap → Prop} {P : Heap → Prop}

/-- A computation that keeps what `R` says of the heap, however it ends. -/
def Carries (R : Heap → Heap → Prop) (x : Run α) : Prop := ∀ s : State, R s.heap (Engine.stateAfter x s).heap

/-- Unless `P` holds where it starts, `x'` does what `x` does, which keeps what `R` says. -/
def Tracks (R : Heap → Heap → Prop) (P : Heap → Prop) (x x' : Run α) : Prop :=
  ∀ s : State, P s.heap ∨ x' s = x s ∧ R s.heap (Engine.stateAfter x s).heap

/-- A computation that leaves the heap which another one leaves. -/
theorem Tracks.ending {x x' : Run α} {y y' : Run β} (hx : x.Tracks R P x')
    (hy : ∀ s, (x' s = x s → y' s = y s) ∧ (Engine.stateAfter y s).heap = (Engine.stateAfter x s).heap)
    : y.Tracks R P y' := by
  intro s
  rcases hx s with hp | ⟨heq, hr⟩
  . exact .inl hp
  . rw [← (hy s).2] at hr
    exact .inr ⟨(hy s).1 heq, hr⟩

theorem Tracks.capture {x x' : Run α} (hx : x.Tracks R P x') : (capture x).Tracks R P (capture x') := by
  apply hx.ending
  intro s
  unfold Engine.stateAfter Run.capture
  constructor
  . intro heq
    rw [heq]
  . cases x s with
    | ok a t => rfl
    | error halt t => cases halt <;> rfl

theorem Tracks.captureHalt {x x' : Run α} (hx : x.Tracks R P x') : (captureHalt x).Tracks R P (captureHalt x') := by
  apply hx.ending
  intro s
  unfold Engine.stateAfter Run.captureHalt
  constructor
  . intro heq
    rw [heq]
  . cases x s <;> rfl

theorem Tracks.lettingGo {x x' : Run α} (hx : x.Tracks R P x') : (lettingGo x).Tracks R P (lettingGo x') := by
  apply hx.ending
  intro s
  unfold Engine.stateAfter Run.lettingGo
  constructor
  . intro heq
    rw [heq]
  . cases x s <;> rfl

variable (hR : Heap.Track R P)
include hR

theorem tracks_of_keeps {x : Run α} (h : ∀ s : State, s.heap.Keeps (Engine.stateAfter x s).heap) : x.Tracks R P x :=
  fun s => .inr ⟨rfl, hR.ofKeeps (h s)⟩

theorem tracks_of_heap {x : Run α} (h : ∀ s : State, (Engine.stateAfter x s).heap = s.heap) : x.Tracks R P x := by
  apply tracks_of_keeps hR
  intro s
  rw [h]
  exact .refl _

theorem pure_tracks (a : α) : (pure a : Run α).Tracks R P (pure a) := tracks_of_heap hR fun _ => rfl

theorem throw_tracks (halt : Halt) : (throw halt : Run α).Tracks R P (throw halt) := tracks_of_heap hR fun _ => rfl

theorem raiseError_tracks (e : Error) : (raiseError e : Run α).Tracks R P (raiseError e) := throw_tracks hR (.raised e)

theorem read_tracks (f : State → α) : Tracks R P (fun s => .ok (f s) s) fun s => .ok (f s) s :=
  tracks_of_heap hR fun _ => rfl

theorem modifyContext_tracks (f : Context → Context) : (modifyContext f).Tracks R P (modifyContext f) :=
  tracks_of_heap hR fun _ => rfl

theorem keep_tracks (held : Held) : (keep held).Tracks R P (keep held) := tracks_of_heap hR fun _ => rfl

theorem alloc_tracks {f : Heap → α × Heap} (hf : ∀ h : Heap, h.Keeps (f h).2) : (alloc f).Tracks R P (alloc f) :=
  tracks_of_keeps hR fun s => hf s.heap

theorem modifyHeap_tracks {f : Heap → Heap} (hf : ∀ h : Heap, h.Keeps (f h))
    : (modifyHeap f).Tracks R P (modifyHeap f) :=
  alloc_tracks (f := fun h => ((), f h)) hR hf

theorem newScope_tracks (parent : Option ScopeRef)
    : (alloc (·.newScope parent)).Tracks R P (alloc (·.newScope parent)) :=
  alloc_tracks hR fun _ => .ofSame ⟨rfl, rfl, rfl, rfl⟩

theorem ofCaptured_tracks (result : Except Error α) : (ofCaptured result).Tracks R P (ofCaptured result) := by
  cases result with
  | ok a => exact pure_tracks hR a
  | error e => exact raiseError_tracks hR e

theorem OnlyModules.tracks {x : Run α} (hx : x.OnlyModules) : x.Tracks R P x := by
  apply tracks_of_heap hR
  intro s
  rcases hx s with ⟨a, modules, held, h, _⟩
  unfold Engine.stateAfter
  rw [h]
  rfl

theorem OpensScope.tracks {x : Run α} {scope : α → ScopeRef} (hx : x.OpensScope scope) : x.Tracks R P x := by
  apply tracks_of_keeps hR
  intro s
  rcases hx s with ⟨a, heap, h, _, hkeeps⟩
  unfold Engine.stateAfter
  rw [h]
  exact hkeeps

theorem Tracks.bind {x x' : Run α} {f f' : α → Run β} (hx : x.Tracks R P x') (hf : ∀ a, (f a).Tracks R P (f' a))
    : (x >>= f).Tracks R P (x' >>= f') := by
  intro s
  rcases hx s with hp | ⟨heq, hr⟩
  . exact .inl hp
  . unfold Engine.stateAfter at hr ⊢
    rw [bind_apply, bind_apply, heq]
    cases hrun : x s with
    | ok a t =>
      rw [hrun] at hr
      rcases hf a t with hp | ⟨heq', hr'⟩
      . exact .inl (hR.before hr hp)
      . exact .inr ⟨heq', hR.trans hr hr'⟩
    | error halt t =>
      rw [hrun] at hr
      exact .inr ⟨rfl, hr⟩

theorem Tracks.locating {x x' : Run α} (hx : x.Tracks R P x') : (locating x).Tracks R P (locating x') := by
  apply hx.capture.bind hR
  intro result
  cases result with
  | ok a => exact pure_tracks hR a
  | error e => exact (read_tracks hR fun s => s.located e).bind hR fun e => raiseError_tracks hR e

theorem Tracks.deeper {x x' : Run α} (hx : x.Tracks R P x') : (deeper x).Tracks R P (deeper x') := by
  apply (modifyContext_tracks hR _).bind hR
  intro
  apply hx.capture.bind hR
  intro result
  apply (modifyContext_tracks hR _).bind hR
  intro
  exact ofCaptured_tracks hR result

theorem Tracks.inContext (context : Context) {x x' : Run α} (hx : x.Tracks R P x')
    : (inContext context x).Tracks R P (inContext context x') := by
  apply (read_tracks hR fun s => s.context).bind hR
  intro saved
  apply (modifyContext_tracks hR _).bind hR
  intro
  have hbody : (do keep (.context saved); x).Tracks R P (do keep (.context saved); x') := by
    apply (keep_tracks hR _).bind hR
    intro
    exact hx
  apply hbody.lettingGo.captureHalt.bind hR
  intro result
  apply (read_tracks hR fun s => s.context).bind hR
  intro context
  apply (modifyContext_tracks hR _).bind hR
  intro
  exact pure_tracks hR _

theorem newContext_tracks (position : Position) : (newContext position).Tracks R P (newContext position) := by
  apply (read_tracks hR fun s => s.world).bind hR
  intro world
  apply (newScope_tracks hR _).bind hR
  intro scope
  apply (alloc_tracks hR fun h => .newInstance h _ _).bind hR
  intro exports
  exact pure_tracks hR _

theorem bindVar_tracks (target : Except BindError (Option ScopeRef)) (name : String) (value : Value)
    : (bindVar target name value).Tracks R P (bindVar target name value) := by
  unfold Run.bindVar
  split
  . exact modifyHeap_tracks hR fun _ => .ofSame ⟨rfl, rfl, rfl, rfl⟩
  . exact raiseError_tracks hR _
  . exact raiseError_tracks hR _

theorem checkDepth_tracks : checkDepth.Tracks R P checkDepth := by
  apply (read_tracks hR fun s => s.world.settings).bind hR
  intro settings
  apply (read_tracks hR fun s => s.context).bind hR
  intro context
  split
  . exact raiseError_tracks hR _
  . exact pure_tracks hR ()

theorem declare_tracks (name : String) (bases : List TypeRef) {x x' : TypeRef → Run (List (String × Value))}
    (hx : ∀ type, (x type).Tracks R P (x' type))
    : (declare name bases x).Tracks R P (declare name bases x') := by
  intro s
  let type := (s.heap.newClass name bases).1
  let made : State := { s with heap := (s.heap.newClass name bases).2 }
  have hmade : alloc (·.newClass name bases) s = .ok type made := rfl
  rcases hx type made with hp | ⟨heq, hr⟩
  . exact .inl (hR.before (hR.ofKeeps (.newClass ..)) hp)
  . right
    unfold Engine.stateAfter at hr ⊢
    unfold declare
    rw [bind_ok hmade, bind_ok hmade, bind_apply, bind_apply, heq]
    cases hrun : x type made with
    | ok members t =>
      rw [hrun] at hr
      exact ⟨rfl, hR.declare hr members⟩
    | error halt t =>
      rw [hrun] at hr
      exact ⟨rfl, hR.trans (hR.ofKeeps (.newClass ..)) hr⟩

end Run

/-- The callbacks of `m'` do what those of `m` do, which keep what `R` says, unless `P` holds where they start. -/
structure Machine.Tracks (R : Heap → Heap → Prop) (P : Heap → Prop) (m m' : Machine) : Prop where
  fuel : m.fuel = m'.fuel
  eval (e : Expr) : (m.eval e).Tracks R P (m'.eval e)
  exec (stmt : Stmt) : (m.exec stmt).Tracks R P (m'.exec stmt)
  invoke (callee this : Value) (args : List Value) : (m.invoke callee this args).Tracks R P (m'.invoke callee this args)
  release (raised : List Value) (calls : List Deferred) : (m.release raised calls).Tracks R P (m'.release raised calls)
  spawn (callee : Value) (args : List Value) : (m.spawn callee args).Tracks R P (m'.spawn callee args)
  native (call : HostCall) (this : Value) (args : List Value)
    : (m.native call this args).Tracks R P (m'.native call this args)
  loadModule (name : String) (modified : Int64)
    : (m.loadModule name modified).Tracks R P (m'.loadModule name modified)

section Rules

variable {R : Heap → Heap → Prop} {P : Heap → Prop} {m m' : Machine} {l : Level} {α : Type}
variable (hR : Heap.Track R P)
include hR

theorem settle_tracks (result : Except Error α) (deferred : Option Error)
    : (Machine.settle result deferred).Tracks R P (Machine.settle result deferred) := by
  unfold Machine.settle
  split
  . exact Run.raiseError_tracks hR _
  . exact Run.raiseError_tracks hR _
  . exact Run.pure_tracks hR _

variable (hm : m.Tracks R P m')
include hm

theorem withFrame_tracks (kind : FrameKind) (scope : ScopeRef) {x x' : Run α} (hx : x.Tracks R P x')
    : (m.withFrame kind scope x).Tracks R P (m'.withFrame kind scope x') := by
  unfold Machine.withFrame
  apply (Run.tracks_of_heap (x := Machine.enterFrame kind scope) hR fun _ => rfl).bind hR
  intro
  apply hx.capture.bind hR
  intro result
  apply (Run.tracks_of_heap (x := Machine.leaveFrame) hR fun _ => rfl).bind hR
  intro calls
  apply (hm.release _ calls).bind hR
  intro deferred
  exact settle_tracks hR result deferred

theorem withBlock_tracks {x x' : Run α} (hx : x.Tracks R P x') : (m.withBlock x).Tracks R P (m'.withBlock x') := by
  apply (Run.read_tracks hR fun s => s.context.stack.top.scope).bind hR
  intro outer
  apply (Run.newScope_tracks hR _).bind hR
  intro scope
  exact withFrame_tracks hR hm .block scope hx

theorem withCall_tracks (name : String) (scope : ScopeRef) {x x' : Run Unit} (hx : x.Tracks R P x')
    : (m.withCall name scope x).Tracks R P (m'.withCall name scope x') := by
  apply (Run.tracks_of_heap (x := Run.takeFlow) hR fun _ => rfl).bind hR
  intro flow
  apply (Run.read_tracks hR fun s => s.context.retVal).bind hR
  intro retVal
  apply ((Run.hold_onlyModules retVal).tracks hR).bind hR
  intro
  apply (Run.modifyContext_tracks hR _).bind hR
  intro
  apply ((withFrame_tracks hR hm _ scope hx).deeper hR).capture.bind hR
  intro result
  apply (Run.read_tracks hR fun s => s.context.retVal).bind hR
  intro value
  apply (Run.modifyContext_tracks hR _).bind hR
  intro
  apply (Run.modifyContext_tracks hR _).bind hR
  intro
  apply (Run.ofCaptured_tracks hR result).bind hR
  intro
  exact Run.pure_tracks hR value

theorem importModule_tracks (name : String) (forceReload : Bool)
    : (m.importModule name forceReload).Tracks R P (m'.importModule name forceReload) :=
  Machine.importModule_steps m m' (P := fun x x' => x.Tracks R P x') (fun hx => hx.tracks hR)
    (fun hx hf => hx.bind hR hf) hm.loadModule name forceReload

/-- A rule over two machines tracks if what it calls back into does. -/
theorem Parallel.tracks {x x' : Run α} (h : Parallel m m' l x x') : x.Tracks R P x' := by
  induction h with
  | pure a => exact Run.pure_tracks hR a
  | bind hx hf ihx ihf => exact ihx.bind hR ihf
  | read f => exact Run.read_tracks hR f
  | raiseError e he => exact Run.raiseError_tracks hR e
  | exhausted => exact Run.throw_tracks hR .exhausted
  | alloc f hf => exact Run.alloc_tracks hR fun h => (hf h).keeps
  | declare name bases hx ihx => exact Run.declare_tracks hR name bases ihx
  | modifyWorld f hf => exact Run.tracks_of_heap hR fun _ => rfl
  | forceLocal hl name value =>
    apply (Run.read_tracks hR fun s => s.context.stack.top.scope).bind hR
    intro scope
    exact Run.modifyHeap_tracks hR fun _ => .ofSame ⟨rfl, rfl, rfl, rfl⟩
  | defineLocal hl name value =>
    apply (Run.read_tracks hR fun s => s.context.stack.top.scope).bind hR
    intro scope
    exact (Run.read_tracks hR fun s => s.heap).bind hR fun _ => Run.bindVar_tracks hR _ name value
  | assignVar name value =>
    apply (Run.read_tracks hR fun s => s.context.stack.top.scope).bind hR
    intro scope
    exact (Run.read_tracks hR fun s => s.heap).bind hR fun _ => Run.bindVar_tracks hR _ name value
  | keep held _ => exact Run.keep_tracks hR held
  | lettingGo hx ih => exact ih.lettingGo
  | locating hx ih => exact ih.locating hR
  | capture handles hx hok hpass hhandle hfatal ihx ihok ihhandle =>
    apply ihx.capture.bind hR
    intro result
    cases result with
    | ok a => exact ihok a
    | error e =>
      cases he : handles e with
      | true => exact ihhandle e he
      | false =>
        rw [(hpass e he).1, (hpass e he).2]
        exact Run.raiseError_tracks hR e
  | withBlock hx ih => exact withBlock_tracks hR hm ih
  | function name scope hx hb ihb =>
    apply (Run.checkDepth_tracks hR).bind hR
    intro
    apply (hx.tracks hR).bind hR
    intro a
    exact withCall_tracks hR hm (name a) (scope a) (ihb a)
  | deeper hx hf ihx ihf =>
    apply (Run.checkDepth_tracks hR).bind hR
    intro
    apply ihx.bind hR
    intro a
    exact (ihf a).deeper hR
  | invoke callee this args => exact hm.invoke callee this args
  | native call this args => exact hm.native call this args
  | importModule name forceReload => exact importModule_tracks hR hm name forceReload
  | spawn callee args => exact hm.spawn callee args
  | eval hl e => exact hm.eval e
  | exec stmt => exact hm.exec stmt
  | addBlockDefer | addDefer | setFlow | setRetVal | setPosition => exact Run.tracks_of_heap hR fun _ => rfl

theorem execStmt_tracks [SameFuel m m'] (stmt : Stmt) : (m.execStmt stmt).Tracks R P (m'.execStmt stmt) := by
  cases hcleanup : stmt.hasCleanup with
  | false => exact (Parallel.execStmt stmt hcleanup).tracks hR hm
  | true =>
    rcases Stmt.eq_of_hasCleanup hcleanup with ⟨pos, body, handler, cleanup, hstmt⟩
    rw [hstmt]
    apply (Run.tracks_of_heap (x := Run.setPosition pos) hR fun _ => rfl).bind hR
    intro
    apply Run.Tracks.locating hR
    apply Run.Tracks.bind hR
    . apply Run.Tracks.capture
      exact Parallel.tracks hR hm (.lettingGo (.execGuarded (.execBlock body) handler))
    . intro result
      dsimp only
      rw [Machine.cleanUp_eq, Machine.cleanUp_eq]
      apply (Parallel.tracks hR hm (.cleansUp cleanup _)).bind hR
      intro again
      split
      . exact Run.ofCaptured_tracks hR result
      . exact Run.pure_tracks hR ()

theorem runDefersFrom_tracks (first : Option Error) (calls : List Deferred)
    : (Machine.runDefers.go m first calls).Tracks R P (Machine.runDefers.go m' first calls) := by
  induction calls generalizing first with
  | nil => exact Run.pure_tracks hR first
  | cons call calls ih =>
    apply (Run.read_tracks hR fun s => s.heap.isCallable call.callee).bind hR
    intro callable
    split
    . apply Run.Tracks.bind hR
      . apply Run.Tracks.capture
        apply Run.Tracks.lettingGo
        apply ((Run.hold_onlyModules call.callee).tracks hR).bind hR
        intro
        exact (Run.keep_tracks hR _).bind hR fun _ => hm.invoke call.callee .undefined call.args
      . intro result
        apply (Run.modifyContext_tracks hR _).bind hR
        intro
        split
        . exact ih _
        . exact ih first
    . split
      . exact ih first
      . apply (Run.read_tracks hR fun s => s.located (.ofCause .deferNotCallable)).bind hR
        intro e
        exact ih (some e)

theorem runDefers_tracks (raised : List Value) (calls : List Deferred)
    : (m.runDefers raised calls).Tracks R P (m'.runDefers raised calls) := by
  unfold Machine.runDefers
  split
  . exact Run.pure_tracks hR none
  . apply (Run.tracks_of_heap (x := Run.takeFlow) hR fun _ => rfl).bind hR
    intro flow
    apply (Run.read_tracks hR fun s => s.context.retVal).bind hR
    intro retVal
    apply Run.Tracks.bind hR
    . apply Run.Tracks.lettingGo
      apply ((Run.hold_onlyModules retVal).tracks hR).bind hR
      intro
      apply (Parallel.tracks (l := .call) hR hm (.holdAll raised)).bind hR
      intro
      exact runDefersFrom_tracks hR hm none calls
    . intro first
      apply (Run.modifyContext_tracks hR _).bind hR
      intro
      exact (Run.modifyContext_tracks hR _).bind hR fun _ => Run.pure_tracks hR first

theorem runThread_tracks (callee : Value) (args : List Value)
    : (m.runThread callee args).Tracks R P (m'.runThread callee args) := by
  apply (Run.read_tracks hR fun s => s.context.stack.top.position).bind hR
  intro position
  apply (Run.newContext_tracks hR position).bind hR
  intro context
  apply Run.Tracks.bind hR (((hm.invoke callee .undefined args).locating hR).capture.inContext hR context)
  intro (result, _)
  dsimp only
  split
  . exact Run.pure_tracks hR _
  . exact Run.pure_tracks hR _
  . exact Run.throw_tracks hR _

/-- The machines that evaluate with all rules track if the machines below them do. -/
theorem above_tracks {host : Host} (fuel : Nat)
    (hnative : ∀ call this args, (host.native m call this args).Tracks R P (host.native m' call this args))
    (himporter : ∀ load, host.importer = some load → ∀ name modified,
      (load m name modified).Tracks R P (load m' name modified))
    : (host.above fuel m).Tracks R P (host.above fuel m') where
  fuel := rfl
  eval e := by
    have hfuel : SameFuel m m' := ⟨hm.fuel⟩
    rw [above_eval, above_eval]
    exact (Parallel.tracks hR hm (.evalExpr Level.expr_ne_call e)).lettingGo
  exec stmt := by
    have hfuel : SameFuel m m' := ⟨hm.fuel⟩
    rw [above_exec, above_exec]
    exact (execStmt_tracks hR hm stmt).lettingGo
  invoke callee this args := by
    have hfuel : SameFuel m m' := ⟨hm.fuel⟩
    rw [above_invoke, above_invoke]
    exact (Parallel.tracks (l := .call) hR hm (.invokeWith callee this args)).lettingGo
  release raised calls := runDefers_tracks hR hm raised calls
  spawn callee args := runThread_tracks hR hm callee args
  native call this args := hnative call this args
  loadModule name modified := by
    unfold Machine.loadModule Host.above
    cases h : host.importer with
    | none => exact Run.raiseError_tracks hR _
    | some load =>
      dsimp only [Option.map]
      apply (himporter load h name modified).bind hR
      intro found
      cases found with
      | none => exact Run.raiseError_tracks hR _
      | some loaded => exact Run.pure_tracks hR loaded

end Rules

/-- The functions and the importer of a host track if what they call back into does. -/
structure Host.Tracks (R : Heap → Heap → Prop) (P : Heap → Prop) (host : Host) : Prop where
  native {m m' : Machine} (hm : m.Tracks R P m') (call : HostCall) (this : Value) (args : List Value)
    : (host.native m call this args).Tracks R P (host.native m' call this args)
  importer {m m' : Machine} (hm : m.Tracks R P m') {load : Machine → String → Int64 → Run (Option Module)}
    (h : host.importer = some load) (name : String) (modified : Int64)
    : (load m name modified).Tracks R P (load m' name modified)

/-- The callbacks of a machine keep what `R` says of the heap. -/
structure Machine.Carries (R : Heap → Heap → Prop) (m : Machine) : Prop where
  eval (e : Expr) : (m.eval e).Carries R
  exec (stmt : Stmt) : (m.exec stmt).Carries R
  invoke (callee this : Value) (args : List Value) : (m.invoke callee this args).Carries R
  release (raised : List Value) (calls : List Deferred) : (m.release raised calls).Carries R
  spawn (callee : Value) (args : List Value) : (m.spawn callee args).Carries R
  native (call : HostCall) (this : Value) (args : List Value) : (m.native call this args).Carries R
  importer {load : String → Int64 → Run (Option Module)} (h : m.importer = some load) (name : String)
    (modified : Int64) : (load name modified).Carries R

/-- The functions and the importer of a host keep what `R` says of the heap if what they call back into does. -/
structure Host.Carries (R : Heap → Heap → Prop) (host : Host) : Prop where
  native {m : Machine} (hm : m.Carries R) (call : HostCall) (this : Value) (args : List Value)
    : (host.native m call this args).Carries R
  importer {m : Machine} (hm : m.Carries R) {load : Machine → String → Int64 → Run (Option Module)}
    (h : host.importer = some load) (name : String) (modified : Int64)
    : (load m name modified).Carries R

section Machines

variable {R : Heap → Heap → Prop} {P : Heap → Prop} {host : Host} {m m' : Machine} {α : Type}

theorem Run.Carries.tracks {x : Run α} (hx : x.Carries R) : x.Tracks R (fun _ => False) x := fun s => .inr ⟨rfl, hx s⟩

theorem Run.Tracks.carries {x : Run α} (hx : x.Tracks R (fun _ => False) x) : x.Carries R := by
  intro s
  rcases hx s with hp | ⟨_, hr⟩
  . exact hp.elim
  . exact hr

theorem spent_tracks (hR : Heap.Track R P) : Machine.spent.Tracks R P Machine.spent where
  fuel := rfl
  eval _ := Run.throw_tracks hR .exhausted
  exec _ := Run.throw_tracks hR .exhausted
  invoke _ _ _ := Run.throw_tracks hR .exhausted
  release _ _ := Run.throw_tracks hR .exhausted
  spawn _ _ := Run.throw_tracks hR .exhausted
  native _ _ _ := Run.throw_tracks hR .exhausted
  loadModule _ _ := Run.throw_tracks hR .exhausted

theorem Machine.Carries.tracks (hR : Heap.Track R fun _ => False) (hm : m.Carries R)
    : m.Tracks R (fun _ => False) m where
  fuel := rfl
  eval e := (hm.eval e).tracks
  exec stmt := (hm.exec stmt).tracks
  invoke callee this args := (hm.invoke callee this args).tracks
  release raised calls := (hm.release raised calls).tracks
  spawn callee args := (hm.spawn callee args).tracks
  native call this args := (hm.native call this args).tracks
  loadModule name modified := by
    unfold Machine.loadModule
    split
    . exact Run.raiseError_tracks hR _
    . next load h =>
      apply (hm.importer h name modified).tracks.bind hR
      intro found
      cases found with
      | none => exact Run.raiseError_tracks hR _
      | some loaded => exact Run.pure_tracks hR loaded

theorem Machine.Tracks.carries (hm : m.Tracks R (fun _ => False) m)
    (himporter : ∀ load, m.importer = some load → ∀ name modified, (load name modified).Carries R)
    : m.Carries R where
  eval e := (hm.eval e).carries
  exec stmt := (hm.exec stmt).carries
  invoke callee this args := (hm.invoke callee this args).carries
  release raised calls := (hm.release raised calls).carries
  spawn callee args := (hm.spawn callee args).carries
  native call this args := (hm.native call this args).carries
  importer h := himporter _ h

theorem Host.Tracks.carries (hR : Heap.Track R fun _ => False) (hhost : host.Tracks R fun _ => False)
    : host.Carries R where
  native hm call this args := (hhost.native (hm.tracks hR) call this args).carries
  importer hm _ h name modified := (hhost.importer (hm.tracks hR) h name modified).carries

theorem none_tracks (hR : Heap.Track R P) : Host.none.Tracks R P where
  native _ _ _ _ := Run.raiseError_tracks hR _
  importer _ _ h := nomatch h

theorem machine_tracks (hR : Heap.Track R P) (hhost : host.Tracks R P) (n : Nat)
    : (host.machine n).Tracks R P (host.machine n) := by
  induction n with
  | zero => exact spent_tracks hR
  | succ n ih => exact above_tracks hR ih n (hhost.native ih) fun _ h => hhost.importer ih h

/-- Every evaluation keeps what every step keeps, if the host does. -/
theorem machine_carries (hR : Heap.Track R fun _ => False) (hhost : host.Carries R) (n : Nat)
    : (host.machine n).Carries R := by
  induction n with
  | zero =>
    apply (spent_tracks hR).carries
    intro load h name modified
    injection h with h
    rw [← h]
    exact (Run.throw_tracks hR .exhausted).carries
  | succ n ih =>
    have habove := above_tracks hR (ih.tracks hR) n
      (fun call this args => (hhost.native ih call this args).tracks)
      (fun load h name modified => (hhost.importer ih h name modified).tracks)
    apply habove.carries
    intro load h name modified
    cases himporter : host.importer with
    | none =>
      unfold Host.above at h
      rw [himporter] at h
      cases h
    | some load' =>
      unfold Host.above at h
      rw [himporter] at h
      injection h with h
      rw [← h]
      exact hhost.importer ih himporter name modified

end Machines

end ScriptEngine
