import ScriptEngine.Proofs.Frame
import ScriptEngine.Proofs.Parallel.Library
import ScriptEngine.Proofs.Parallel.Stmt

/-!
This module contains what evaluations leave of the context that they run in. A discipline relates
the contexts before and after a computation at each level; that the machine of every host keeps to
it is proved here once for all of them.
-/

namespace ScriptEngine

namespace Context

/-- The context in which the body of a function runs, apart from its frame. -/
def called (c : Context) : Context := { c with flow := .normal, retVal := .undefined, depth := c.depth + 1 }

end Context

/-- A relation of contexts that is kept by all rules if it is kept by what they call back into. -/
structure Discipline (R : Level → Context → Context → Prop) : Prop where
  refl (l : Level) (c : Context) : R l c c
  trans {l : Level} {a b c : Context} (h1 : R l a b) (h2 : R l b c) : R l a c
  ofCall {l : Level} {a b : Context} (h : R .call a b) : R l a b
  ofExpr {l : Level} {a b : Context} (hl : l ≠ .call) (h : R .expr a b) : R l a b
  /-- What happens in a block is seen from outside once the block is left. -/
  block {l : Level} {c d : Context} (scope : ScopeRef) (h : R l (c.enter .block scope) d) : R l c d.leave
  addBlockDefer (c : Context) (call : Deferred) : R .expr c { c with stack := c.stack.addBlockDefer call }
  addDefer (c : Context) (call : Deferred) : R .stmt c { c with stack := c.stack.addDefer call }
  setFlow (c : Context) (flow : Flow) : R .stmt c { c with flow := flow }
  setRetVal (c : Context) (value : Value) : R .stmt c { c with retVal := value }
  setPosition (c : Context) (pos : Position)
    : R .stmt c { c with stack := { c.stack with top := { c.stack.top with position := pos } } }
  /-- The body of a function and the calls that it put off. -/
  function {c d e : Context} (name : String) (scope : ScopeRef)
    (hd : R .stmt (c.called.enter (.function name) scope) d) (he : R .call d.leave e)
    : R .call c { e with depth := e.depth - 1, flow := c.flow, retVal := c.retVal }
  native {c d : Context} (h : R .call { c with depth := c.depth + 1 } d)
    : R .call c { d with depth := d.depth - 1 }
  /-- One call after another that was put off. -/
  cleared {c d : Context} (hc : c.flow = .normal) (h : R .call c d) : R .call c { d with flow := .normal }
  released {c d : Context} (h : R .call { c with flow := .normal } d)
    : R .call c { d with flow := c.flow, retVal := c.retVal }

namespace Run

variable {α β : Type} {R : Context → Context → Prop}

/-- Wherever a computation ends, its context is related to the one that it started in. -/
def Leaves (R : Context → Context → Prop) (x : Run α) : Prop :=
  ∀ s t, x.Ends s t → R s.context t.context

theorem Leaves.lettingGo {x : Run α} (hx : x.Leaves R) : (lettingGo x).Leaves R := by
  intro s t h
  rcases ends_lettingGo h with ⟨u, hu, ht⟩
  rw [ht]
  exact hx s u hu

theorem Leaves.capture {x : Run α} (hx : x.Leaves R) : (capture x).Leaves R := by
  intro s t h
  exact hx s t (ends_capture h)

theorem exhausted_leaves : (exhausted : Run α).Leaves R := by
  intro s t h
  rcases h with ⟨a, h⟩ | ⟨e, h⟩
  . injection h
  . injection h with h
    injection h

theorem leaves_of_ok {x : Run α} (h : ∀ s, ∃ a t, x s = .ok a t ∧ R s.context t.context)
    : x.Leaves R := by
  intro s t ht
  rcases h s with ⟨a, u, hx, hu⟩
  rcases ht with ⟨b, ht⟩ | ⟨e, ht⟩
  . rw [hx] at ht
    injection ht with _ ht
    rw [← ht]
    exact hu
  . rw [hx] at ht
    injection ht

end Run

/-- The callbacks of a machine keep to a discipline, each at its level. -/
structure Machine.Respects (R : Level → Context → Context → Prop) (m : Machine) : Prop where
  eval (e : Expr) : (m.eval e).Leaves (R .expr)
  exec (stmt : Stmt) : (m.exec stmt).Leaves (R .stmt)
  invoke (callee this : Value) (args : List Value) : (m.invoke callee this args).Leaves (R .call)
  release (raised : List Value) (calls : List Deferred) : (m.release raised calls).Leaves (R .call)
  spawn (callee : Value) (args : List Value) : (m.spawn callee args).Leaves (R .call)
  native (call : HostCall) (this : Value) (args : List Value) : (m.native call this args).Leaves (R .call)
  importer {load : String → Int64 → Run (Option Module)} (h : m.importer = some load) (name : String)
    (modified : Int64) : (load name modified).Leaves (R .call)

/-- The functions and the importer of a host keep to a discipline if what they call back into does. -/
structure Host.Respects (R : Level → Context → Context → Prop) (host : Host) : Prop where
  native {m : Machine} (hm : m.Respects R) (call : HostCall) (this : Value) (args : List Value)
    : (host.native m call this args).Leaves (R .call)
  importer {m : Machine} (hm : m.Respects R) {load : Machine → String → Int64 → Run (Option Module)}
    (h : host.importer = some load) (name : String) (modified : Int64)
    : (load m name modified).Leaves (R .call)

section Rules

variable {R : Level → Context → Context → Prop} {m m' : Machine} {l : Level} {α β : Type}
variable (hR : Discipline R)
include hR

theorem Run.Leaves.bind {x : Run α} {f : α → Run β} (hx : x.Leaves (R l)) (hf : ∀ a, (f a).Leaves (R l))
    : (x >>= f).Leaves (R l) := by
  intro s t h
  rcases ends_bind h with ⟨e, h⟩ | ⟨a, u, h1, h2⟩
  . exact hx s t (.raised h)
  . apply hR.trans
    . exact hx s u (.ok h1)
    . exact hf a u t h2

theorem Run.Leaves.ofCall {x : Run α} (h : x.Leaves (R .call)) : x.Leaves (R l) := by
  intro s t ht
  exact hR.ofCall (h s t ht)

theorem Run.leaves_of_same {x : Run α} (h : ∀ s t, x.Ends s t → t.context = s.context)
    : x.Leaves (R l) := by
  intro s t ht
  rw [h s t ht]
  exact hR.refl l _

theorem Run.pure_leaves (a : α) : (Pure.pure a : Run α).Leaves (R l) := by
  apply leaves_of_ok
  intro s
  exact ⟨a, s, rfl, hR.refl l _⟩

theorem Run.raiseError_leaves (e : Error) : (Run.raiseError e : Run α).Leaves (R l) := by
  apply leaves_of_same hR
  intro s t h
  rcases h with ⟨a, h⟩ | ⟨e, h⟩
  . injection h
  . injection h with _ h
    rw [h]

theorem Run.ofCaptured_leaves (r : Except Error α) : (Run.ofCaptured r).Leaves (R l) := by
  cases r with
  | ok a => exact pure_leaves hR a
  | error e => exact raiseError_leaves hR e

theorem Run.OnlyHeap.leaves {x : Run α} (hx : x.OnlyHeap) : x.Leaves (R l) := by
  apply leaves_of_same hR
  intro s t h
  rcases hx s with ⟨a, heap, hx⟩ | ⟨e, hx⟩
  . rcases h with ⟨_, h⟩ | ⟨_, h⟩
    . rw [hx] at h
      injection h with _ h
      rw [← h]
    . rw [hx] at h
      injection h
  . rcases h with ⟨_, h⟩ | ⟨_, h⟩
    . rw [hx] at h
      injection h
    . rw [hx] at h
      injection h with _ h
      rw [h]

theorem Run.Leaves.locating {x : Run α} (hx : x.Leaves (R l)) : (Run.locating x).Leaves (R l) := by
  apply hx.capture.bind hR
  intro r
  cases r with
  | ok a => exact pure_leaves hR a
  | error e =>
    apply leaves_of_same hR
    intro s t h
    have h : (Run.raiseError (s.located e) : Run α).Ends s t := h
    rw [ends_raiseError h]

/-- A thread has a context of its own, so it does nothing to the one that it is spawned from. -/
theorem runThread_leaves (callee : Value) (args : List Value) : (m.runThread callee args).Leaves (R l) := by
  apply Run.leaves_of_same hR
  intro s t h
  rcases Machine.runThread_apply callee args s with ⟨context, heap, _, happly⟩
  unfold Run.Ends at h
  rw [happly m] at h
  split at h
  . rcases h with ⟨a, h⟩ | ⟨e, h⟩
    . injection h with _ h
      rw [← h]
    . injection h
  . rcases h with ⟨a, h⟩ | ⟨e, h⟩
    . injection h with _ h
      rw [← h]
    . injection h
  . rcases h with ⟨a, h⟩ | ⟨e, h⟩
    . injection h
    . injection h with _ h
      rw [← h]

theorem loadModule_leaves (hm : m.Respects R) (name : String) (modified : Int64)
    : (m.loadModule name modified).Leaves (R l) := by
  unfold Machine.loadModule
  split
  . apply Run.raiseError_leaves hR
  . next load h =>
    apply Run.Leaves.bind hR
    . exact (hm.importer h name modified).ofCall hR
    . intro found
      cases found with
      | none => exact Run.raiseError_leaves hR _
      | some loaded => exact Run.pure_leaves hR loaded

theorem importModule_leaves (hm : m.Respects R) (name : String) (forceReload : Bool)
    : (m.importModule name forceReload).Leaves (R l) := by
  refine Machine.importModule_steps m m (P := fun x _ => x.Leaves (R l)) ?_ ?_ ?_ name forceReload
  . intro _ x hx
    apply Run.leaves_of_ok
    intro s
    rcases hx s with ⟨a, modules, held, h, _⟩
    exact ⟨a, _, h, hR.refl _ _⟩
  . intro _ _ x _ f _ hx hf
    exact hx.bind hR hf
  . intro name modified
    exact loadModule_leaves hR hm name modified

theorem block_leaves (hm : m.Respects R) {x : Run α} (scope : ScopeRef) (hx : x.Leaves (R l))
    : (m.withFrame .block scope x).Leaves (R l) := by
  intro s t h
  rcases Machine.ends_withFrame h with ⟨u, raised, calls, hu, ht⟩
  have hleave := hR.block scope (hx _ u hu)
  apply hR.trans hleave
  exact (hm.release raised calls).ofCall hR _ t ht

theorem withBlock_leaves (hm : m.Respects R) {x : Run α} (hx : x.Leaves (R l))
    : (m.withBlock x).Leaves (R l) := by
  apply Run.Leaves.bind hR
  . apply Run.leaves_of_ok
    intro s
    exact ⟨s.scope, s, rfl, hR.refl _ _⟩
  . intro outer
    apply ((Run.alloc_onlyHeap _).leaves hR).bind hR
    intro scope
    exact block_leaves hR hm scope hx

theorem checkDepth_leaves : Run.checkDepth.Leaves (R l) := by
  apply Run.leaves_of_same hR
  intro s t h
  rw [Run.ends_checkDepth h]

theorem deeper_leaves {x : Run α} (hx : x.Leaves (R .call)) : (Run.deeper x).Leaves (R .call) := by
  intro s t h
  rcases Run.ends_deeper h with ⟨u, hu, ht⟩
  rw [ht]
  exact hR.native (hx _ u hu)

theorem function_leaves (hm : m.Respects R) {x : Run Unit} (name : String) (scope : ScopeRef)
    (hx : x.Leaves (R .stmt))
    : (m.withCall name scope x).Leaves (R .call) := by
  intro s t h
  rcases Run.ends_finishing (h.congr (Machine.withCall_apply m name scope x s)) with ⟨u, hu, ht⟩
  rcases Run.hold_apply s.context.retVal (s.withFlow .normal) with ⟨held, hheld⟩
  let start : State := { s with
    context := { s.context with flow := .normal, retVal := .undefined }, held := held }
  have hu : (Run.deeper (m.withFrame (.function name) scope x) >>= fun _ => Run.retVal).Ends start u :=
    hu.congr (Run.bind_ok hheld)
  -- Reading the value at the end leaves the state as the function left it.
  have hu : (Run.deeper (m.withFrame (.function name) scope x)).Ends start u := by
    rcases Run.ends_bind hu with ⟨e, hu⟩ | ⟨_, v, hv, hu⟩
    . exact .raised hu
    . rw [Run.ends_pure hu]
      exact .ok hv
  rcases Run.ends_deeper hu with ⟨v, hv, huv⟩
  rcases Machine.ends_withFrame hv with ⟨w, raised, calls, hw, hrelease⟩
  have hbody := hx _ w hw
  have hrelease := hm.release raised calls _ v hrelease
  have hfunction := hR.function (c := s.context) name scope hbody hrelease
  rw [ht, huv]
  exact hfunction

theorem Parallel.leaves (hm : m.Respects R) {x x' : Run α} (h : Parallel m m' l x x')
    : x.Leaves (R l) := by
  induction h with
  | pure a => exact Run.pure_leaves hR a
  | bind hx hf ihx ihf => exact ihx.bind hR ihf
  | read f =>
    apply Run.leaves_of_ok
    intro s
    exact ⟨f s, s, rfl, hR.refl _ _⟩
  | raiseError e he => exact Run.raiseError_leaves hR e
  | exhausted => exact Run.exhausted_leaves
  | alloc f hf => exact (Run.alloc_onlyHeap f).leaves hR
  | declare name bases hx ihx =>
    apply ((Run.alloc_onlyHeap _).leaves hR).bind hR
    intro type
    apply (ihx type).bind hR
    intro members
    apply ((Run.modifyHeap_onlyHeap _).leaves hR).bind hR
    intro
    exact Run.pure_leaves hR type
  | forceLocal hl name value => exact (Run.forceLocal_onlyHeap name value).leaves hR
  | defineLocal hl name value => exact (Run.defineLocal_onlyHeap name value).leaves hR
  | assignVar name value => exact (Run.assignVar_onlyHeap name value).leaves hR
  | modifyWorld f hf =>
    apply Run.leaves_of_ok
    intro s
    exact ⟨(), { s with world := f s.world }, rfl, hR.refl _ _⟩
  | keep held _ =>
    apply Run.leaves_of_ok
    intro s
    exact ⟨(), { s with held := held :: s.held }, rfl, hR.refl _ _⟩
  | lettingGo hx ih => exact ih.lettingGo
  | locating hx ih => exact ih.locating hR
  | capture handles hx hok hpass hhandle hfatal ihx ihok ihhandle =>
    apply ihx.capture.bind hR
    intro r
    cases r with
    | ok a => exact ihok a
    | error e =>
      cases he : handles e with
      | true => exact ihhandle e he
      | false =>
        rw [(hpass e he).1]
        exact Run.raiseError_leaves hR e
  | withBlock hx ih => exact withBlock_leaves hR hm ih
  | function name scope hx hb ihb =>
    apply Run.Leaves.ofCall hR
    apply (checkDepth_leaves hR).bind hR
    intro
    apply (hx.onlyHeap.leaves hR).bind hR
    intro a
    exact function_leaves hR hm (name a) (scope a) (ihb a)
  | deeper hx hf ihx ihf =>
    apply Run.Leaves.ofCall hR
    apply (checkDepth_leaves hR).bind hR
    intro
    apply ihx.bind hR
    intro a
    exact deeper_leaves hR (ihf a)
  | invoke callee this args => exact (hm.invoke callee this args).ofCall hR
  | native call this args => exact (hm.native call this args).ofCall hR
  | importModule name forceReload => exact importModule_leaves hR hm name forceReload
  | spawn callee args => exact (hm.spawn callee args).ofCall hR
  | eval hl e =>
    intro s t ht
    exact hR.ofExpr hl (hm.eval e s t ht)
  | addBlockDefer hl callee args isOptional =>
    apply Run.leaves_of_ok
    intro s
    exact ⟨(), s.withContext _, rfl, hR.ofExpr hl (hR.addBlockDefer _ _)⟩
  | exec stmt => exact hm.exec stmt
  | addDefer callee args =>
    apply Run.leaves_of_ok
    intro s
    exact ⟨(), s.withContext _, rfl, hR.addDefer _ _⟩
  | setFlow flow =>
    apply Run.leaves_of_ok
    intro s
    exact ⟨(), s.withFlow flow, rfl, hR.setFlow _ _⟩
  | setRetVal value =>
    apply Run.leaves_of_ok
    intro s
    exact ⟨(), s.withRetVal value, rfl, hR.setRetVal _ _⟩
  | setPosition pos =>
    apply Run.leaves_of_ok
    intro s
    exact ⟨(), s.withContext _, rfl, hR.setPosition _ _⟩

/-- A rule over one machine. -/
theorem Parallel.leavesAlone (hm : m.Respects R) {x : Run α} (h : Parallel m m l x x) : x.Leaves (R l) :=
  h.leaves hR hm

theorem execStmt_leaves (hm : m.Respects R) (stmt : Stmt) : (m.execStmt stmt).Leaves (R .stmt) := by
  cases hcleanup : stmt.hasCleanup with
  | false => exact (Parallel.execStmt stmt hcleanup).leavesAlone hR hm
  | true =>
    rcases Stmt.eq_of_hasCleanup hcleanup with ⟨pos, body, handler, cleanup, hstmt⟩
    rw [hstmt]
    apply (Parallel.leavesAlone hR hm (.setPosition pos)).bind hR
    intro
    apply Run.Leaves.locating hR
    apply Run.Leaves.bind hR
    . apply Run.Leaves.capture
      exact Parallel.leavesAlone hR hm (.lettingGo (.execGuarded (.execBlock body) handler))
    . intro result
      dsimp only
      rw [Machine.cleanUp_eq]
      apply (Parallel.leavesAlone hR hm (.cleansUp cleanup _)).bind hR
      intro again
      split
      . exact Run.ofCaptured_leaves hR result
      . exact Run.pure_leaves hR ()

theorem makeCall_leaves (hm : m.Respects R) (call : Deferred) (calls : List Deferred)
    : (m.makeCall call calls).Leaves (R .call) := by
  have h : Parallel m m .call (m.makeCall call calls) (m.makeCall call calls) := by
    apply Parallel.lettingGo
    apply Parallel.bind (.hold call.callee)
    intro
    apply Parallel.bind (.keep (.calls calls) rfl)
    intro
    apply Parallel.invoke
  exact h.leaves hR hm

theorem runDefersFrom_leaves (hm : m.Respects R) (first : Option Error) (calls : List Deferred)
    {s t : State} (hs : s.context.flow = .normal) (h : (Machine.runDefers.go m first calls).Ends s t)
    : R .call s.context t.context := by
  induction calls generalizing first s with
  | nil =>
    rw [Run.ends_pure h]
    exact hR.refl .call _
  | cons call calls ih =>
    cases hcallable : s.heap.isCallable call.callee with
    | true =>
      rcases Run.ends_capture_bind (h.congr (Machine.runDefersFrom_call hcallable)) with ⟨r, u, _, hu, ht⟩
      have hcall := makeCall_leaves hR hm call calls s u hu
      have hrest := ih _ rfl (s := u.withFlow .normal) ht
      exact hR.trans (hR.cleared hs hcall) hrest
    | false =>
      by_cases hskip : call.isOptional || first.isSome
      . exact ih first hs (h.congr (Machine.runDefersFrom_skip hcallable hskip))
      . have h := h.congr (Machine.runDefersFrom_fault hcallable hskip)
        exact ih _ hs h

theorem runDefers_leaves (hm : m.Respects R) (raised : List Value) (calls : List Deferred)
    : (m.runDefers raised calls).Leaves (R .call) := by
  intro s t h
  cases calls with
  | nil =>
    rw [Run.ends_pure h]
    exact hR.refl .call _
  | cons call calls =>
    rcases Machine.runDefers_cons raised call calls s with ⟨held, hruns⟩
    unfold Run.Ends at h
    rw [hruns m] at h
    cases hgo : Machine.runDefers.go m none (call :: calls) { s.withFlow .normal with held := held } with
    | ok first u =>
      rw [hgo] at h
      have hu := hR.released (runDefersFrom_leaves hR hm none (call :: calls) rfl (.ok hgo))
      rcases h with ⟨_, h⟩ | ⟨_, h⟩
      . injection h with _ h
        rw [← h]
        exact hu
      . injection h
    | error halt u =>
      rw [hgo] at h
      rcases h with ⟨_, h⟩ | ⟨e, h⟩
      . injection h
      . injection h with h _
        rw [h] at hgo
        exact absurd hgo (Machine.runDefersFrom_ne_raised _ _ _ _ _ _)

end Rules

section Machine

variable {R : Level → Context → Context → Prop} {host : Host} {m : Machine}

theorem spent_respects : Machine.spent.Respects R where
  eval _ := Run.exhausted_leaves
  exec _ := Run.exhausted_leaves
  invoke _ _ _ := Run.exhausted_leaves
  release _ _ := Run.exhausted_leaves
  spawn _ _ := Run.exhausted_leaves
  native _ _ _ := Run.exhausted_leaves
  importer h _ _ := by
    injection h with h
    rw [← h]
    exact Run.exhausted_leaves

theorem above_respects (hR : Discipline R) (hhost : host.Respects R) (fuel : Nat) (hm : m.Respects R)
    : (host.above fuel m).Respects R where
  eval e := by
    rw [above_eval]
    exact (Parallel.leavesAlone hR hm (.evalExpr Level.expr_ne_call e)).lettingGo
  exec stmt := by
    rw [above_exec]
    exact (execStmt_leaves hR hm stmt).lettingGo
  invoke callee this args := by
    rw [above_invoke]
    exact (Parallel.leavesAlone hR hm (.invokeWith callee this args)).lettingGo
  release raised calls := runDefers_leaves hR hm raised calls
  spawn callee args := runThread_leaves hR callee args
  native call this args := hhost.native hm call this args
  importer h name modified := by
    cases himporter : host.importer with
    | none =>
      rw [Host.above, himporter] at h
      injection h
    | some load =>
      rw [Host.above, himporter] at h
      injection h with h
      rw [← h]
      exact hhost.importer hm himporter name modified

/-- Every evaluation keeps to a discipline that the host keeps to. -/
theorem machine_respects (hR : Discipline R) (hhost : host.Respects R) (n : Nat)
    : (host.machine n).Respects R := by
  induction n with
  | zero => exact spent_respects
  | succ n ih => exact above_respects hR hhost n ih

end Machine

end ScriptEngine
