import ScriptEngine.Proofs.Frame
import ScriptEngine.Proofs.Parallel.Library

/-!
This module contains machines that follow others under a regime. Their evaluations do what those of the
other machine do, or give up, as long as they start where the regime allows it. A regime says how much
room there is for more calls, and what an evaluation keeps of the state, so that the next one starts
where it is allowed, too. What holds of all rules is proved here once for all regimes.
-/

namespace ScriptEngine

/-- The states before and after something that neither calls nor waits. -/
structure State.SameCalls (s t : State) : Prop where
  settings : t.world.settings = s.world.settings
  depth : t.context.depth = s.context.depth
  outline : t.context.stack.outline = s.context.stack.outline
  waiting : t.waiting = s.waiting

/-- The state in which another context starts to run, while the current one waits. -/
def State.start (s : State) (context : Context) (heap : Heap) : State :=
  { s with heap := heap, context := context, held := .context s.context :: s.held }

/-- The state in which the context of `s` goes on. -/
def State.backIn (t s : State) : State := { t with context := s.context, held := s.held }

namespace State.SameCalls

variable {s t u : State}

theorem trans (h : s.SameCalls t) (h' : t.SameCalls u) : s.SameCalls u :=
  ⟨h'.settings.trans h.settings, h'.depth.trans h.depth, h'.outline.trans h.outline, h'.waiting.trans h.waiting⟩

theorem left {kind : FrameKind} {scope : ScopeRef} (h : (s.enter kind scope).SameCalls t) : s.SameCalls t.leave :=
  ⟨h.settings, h.depth, Stack.outline_pop h.outline, h.waiting⟩

theorem returned (h : (s.withDepth (s.context.depth + 1)).SameCalls t)
    : s.SameCalls t.shallower :=
  ⟨h.settings, depth_shallower h.depth, h.outline, h.waiting⟩

theorem letGo (h : s.SameCalls t) : s.SameCalls { t with held := s.held } :=
  ⟨h.settings, h.depth, h.outline, rfl⟩

theorem back (h : t.world.settings = s.world.settings) : s.SameCalls (t.backIn s) := ⟨h, rfl, rfl, rfl⟩

end State.SameCalls

structure Regime where
  /-- An evaluation may start, with room for `k` more calls. -/
  Allows (k : Nat) (s : State) : Prop
  /-- A computation that ended kept what has to be kept. -/
  Keeps (s t : State) : Prop
  ofSame {s t : State} (h : s.SameCalls t) : Keeps s t
  settings {s t : State} (h : Keeps s t) : t.world.settings = s.world.settings
  trans {s t u : State} (h : Keeps s t) (h' : Keeps t u) : Keeps s u
  allows {k : Nat} {s t : State} (hs : Allows k s) (h : Keeps s t) : Allows k t
  mono {k : Nat} {s : State} (hs : Allows k s) : Allows 0 s
  /-- Below the limit there is room for one more call. -/
  room {s : State} (hs : Allows 0 s) (hdepth : s.context.depth < s.world.settings.maxDepth) : Allows 1 s
  block {k : Nat} {s : State} (scope : ScopeRef) (hs : Allows k s) : Allows k (s.enter .block scope)
  deeper {s : State} (hs : Allows 1 s) : Allows 0 (s.withDepth (s.context.depth + 1))
  function {s : State} (name : String) (scope : ScopeRef) (hs : Allows 1 s)
    : Allows 0 ((s.withDepth (s.context.depth + 1)).enter (.function name) scope)
  left {s t : State} {kind : FrameKind} {scope : ScopeRef} (h : Keeps (s.enter kind scope) t) : Keeps s t.leave
  returned {s t : State} (h : Keeps (s.withDepth (s.context.depth + 1)) t) : Keeps s t.shallower
  letGo {s t : State} (h : Keeps s t) : Keeps s { t with held := s.held }
  /-- A context of its own. Nothing of it has to be kept once the other one goes on. -/
  fork {s : State} {context : Context} {heap : Heap} (hs : Allows 0 s) (hforks : s.Forks context heap)
    : Allows 0 (s.start context heap)
  back {s t : State} (h : t.world.settings = s.world.settings) : Keeps s (t.backIn s)

namespace Regime

/-- The way a computation ended keeps what has to be kept. If nothing more runs, that is the settings. -/
def Steady (R : Regime) {α : Type} (s : State) : EStateM.Result Halt State α → Prop
  | .ok _ t | .error (.raised _) t => R.Keeps s t
  | .error _ t => t.world.settings = s.world.settings

variable {R : Regime} {α β : Type} {s t : State}

theorem Steady.settings {halt : Halt} (h : R.Steady s (.error halt t : EStateM.Result Halt State α))
    : t.world.settings = s.world.settings := by
  cases halt with
  | raised e => exact R.settings h
  | exhausted => exact h
  | died => exact h

/-- However another context ended, the one of `s` was not touched. -/
theorem steady_backIn (halt : Halt) (h : t.world.settings = s.world.settings)
    : R.Steady s (.error halt (t.backIn s) : EStateM.Result Halt State α) := by
  cases halt with
  | raised e => exact R.back h
  | exhausted => exact h
  | died => exact h

theorem Steady.trans {r : EStateM.Result Halt State β} (h : R.Keeps s t) (hr : R.Steady t r)
    : R.Steady s r := by
  cases r with
  | ok a u => exact R.trans h hr
  | error halt u =>
    cases halt with
    | raised e => exact R.trans h hr
    | exhausted => exact Eq.trans hr (R.settings h)
    | died => exact Eq.trans hr (R.settings h)

end Regime

namespace Run

variable {α β : Type}

/-- From `s` on, `x'` does what `x` does, or it gives up. If `L` is true then `x` keeps what has to be kept. -/
def HeedsAt (R : Regime) (L G : Prop) (s : State) (x x' : Run α) : Prop :=
  (x' s = x s ∧ (L → R.Steady s (x s))) ∨ (G ∧ ∃ t, x' s = .error .exhausted t)

/-- That is so wherever the regime allows to start, and if `L` is false then everywhere. -/
def Heeds (R : Regime) (L G : Prop) (k : Nat) (x x' : Run α) : Prop :=
  ∀ s, (L → R.Allows k s) → HeedsAt R L G s x x'

variable {R : Regime} {L G : Prop} {k : Nat} {s : State}

theorem Heeds.mono {x x' : Run α} (h : Heeds R L G 0 x x') : Heeds R L G k x x' := by
  intro s hs
  apply h
  intro hl
  exact R.mono (hs hl)

theorem heeds_of_steady {x : Run α} (h : ∀ s, R.Steady s (x s)) : Heeds R L G k x x := by
  intro s hs
  exact .inl ⟨rfl, fun _ => h s⟩

theorem HeedsAt.bind {x x' : Run α} {f f' : α → Run β} (hx : HeedsAt R L G s x x')
    (hf : ∀ a t, x s = .ok a t → (L → R.Keeps s t) → HeedsAt R L G t (f a) (f' a))
    : HeedsAt R L G s (x >>= f) (x' >>= f') := by
  rcases hx with ⟨heq, hsteady⟩ | ⟨hg, t, ht⟩
  . cases hr : x s with
    | ok a t =>
      rw [hr] at heq hsteady
      rcases hf a t hr hsteady with ⟨heq', hsteady'⟩ | hgave
      . left
        rw [bind_ok heq, bind_ok hr]
        exact ⟨heq', fun hl => .trans (hsteady hl) (hsteady' hl)⟩
      . right
        rw [bind_ok heq]
        exact hgave
    | error halt t =>
      rw [hr] at heq hsteady
      left
      rw [bind_error heq, bind_error hr]
      refine ⟨rfl, ?_⟩
      intro hl
      have hsteady := hsteady hl
      cases halt <;> exact hsteady
  . exact .inr ⟨hg, t, bind_error ht⟩

theorem Heeds.bind {x x' : Run α} {f f' : α → Run β} (hx : Heeds R L G k x x')
    (hf : ∀ a, Heeds R L G k (f a) (f' a))
    : Heeds R L G k (x >>= f) (x' >>= f') := by
  intro s hs
  apply (hx s hs).bind
  intro a t _ ht
  apply hf
  intro hl
  exact R.allows (hs hl) (ht hl)

/-- A computation that goes on as another one, from a state in which everything is kept. -/
theorem HeedsAt.after {x x' y y' : Run α} {t : State} (hx : HeedsAt R L G t x x') (ht : L → R.Keeps s t)
    (hy : y s = x t) (hy' : y' s = x' t)
    : HeedsAt R L G s y y' := by
  unfold HeedsAt
  rw [hy, hy']
  rcases hx with ⟨heq, hsteady⟩ | hgave
  . exact .inl ⟨heq, fun hl => .trans (ht hl) (hsteady hl)⟩
  . exact .inr hgave

/-- A computation that changes the way another one ends, but not one that gave up. -/
theorem HeedsAt.ending {x x' : Run α} {y y' : Run β} {start : State} (hx : HeedsAt R L G start x x')
    (hsame : x' start = x start → y' s = y s) (hsteady : R.Steady start (x start) → R.Steady s (y s))
    (hgave : ∀ t, x' start = .error .exhausted t → ∃ u, y' s = .error .exhausted u)
    : HeedsAt R L G s y y' := by
  rcases hx with ⟨heq, h⟩ | ⟨hg, t, ht⟩
  . exact .inl ⟨hsame heq, fun hl => hsteady (h hl)⟩
  . exact .inr ⟨hg, hgave t ht⟩

theorem HeedsAt.capture {x x' : Run α} (hx : HeedsAt R L G s x x')
    : HeedsAt R L G s (capture x) (capture x') := by
  apply hx.ending
  . intro h
    simp only [Run.capture, h]
  . intro h
    unfold Run.capture
    cases hr : x s with
    | ok a t =>
      rw [hr] at h
      exact h
    | error halt t =>
      rw [hr] at h
      cases halt <;> exact h
  . intro t h
    refine ⟨t, ?_⟩
    simp only [Run.capture, h]

theorem Heeds.capture {x x' : Run α} (hx : Heeds R L G k x x')
    : Heeds R L G k (capture x) (capture x') := by
  intro s hs
  exact (hx s hs).capture

theorem Heeds.lettingGo {x x' : Run α} (hx : Heeds R L G k x x')
    : Heeds R L G k (lettingGo x) (lettingGo x') := by
  intro s hs
  apply (hx s hs).ending
  . intro h
    simp only [Run.lettingGo, h]
  . intro h
    unfold Run.lettingGo
    cases hr : x s with
    | ok a t =>
      rw [hr] at h
      exact R.letGo h
    | error halt t =>
      rw [hr] at h
      cases halt with
      | raised e => exact R.letGo h
      | exhausted => exact h
      | died => exact h
  . intro t h
    refine ⟨{ t with held := s.held }, ?_⟩
    simp only [Run.lettingGo, h]

/-- One more call is active while `x` runs. -/
theorem HeedsAt.deeper {x x' : Run α} (hx : HeedsAt R L G (s.withDepth (s.context.depth + 1)) x x')
    : HeedsAt R L G s (deeper x) (deeper x') := by
  apply hx.ending
  . intro h
    rw [deeper_apply, deeper_apply]
    unfold finishing
    rw [h]
  . intro h
    rw [deeper_apply]
    unfold finishing
    cases hr : x (s.withDepth (s.context.depth + 1)) with
    | ok a t =>
      rw [hr] at h
      exact R.returned h
    | error halt t =>
      rw [hr] at h
      cases halt with
      | raised e => exact R.returned h
      | exhausted => exact h
      | died => exact h
  . intro t h
    refine ⟨t, ?_⟩
    rw [deeper_apply]
    unfold finishing
    rw [h]

theorem Heeds.deeper {x x' : Run α} (hx : Heeds R L G 0 x x')
    : Heeds R L G 1 (deeper x) (deeper x') := by
  intro s hs
  apply HeedsAt.deeper
  apply hx
  intro hl
  exact R.deeper (hs hl)

/-- After the check there is room for one more call. -/
theorem Heeds.checked {x x' : Run α} (hx : Heeds R L G 1 x x')
    : Heeds R L G 0 (do checkDepth; x) (do checkDepth; x') := by
  intro s hs
  have hcheck := checkDepth_apply s
  by_cases hlimit : s.world.settings.maxDepth ≤ s.context.depth
  . rw [if_pos hlimit] at hcheck
    left
    rw [bind_error hcheck, bind_error hcheck]
    exact ⟨rfl, fun _ => R.ofSame ⟨rfl, rfl, rfl, rfl⟩⟩
  . rw [if_neg hlimit] at hcheck
    unfold HeedsAt
    rw [bind_ok hcheck, bind_ok hcheck]
    apply hx
    intro hl
    exact R.room (hs hl) (Nat.lt_of_not_le hlimit)

theorem heeds_of_same {x : Run α} (h : ∀ s, ∃ a t, x s = .ok a t ∧ s.SameCalls t) : Heeds R L G k x x := by
  apply heeds_of_steady
  intro s
  rcases h s with ⟨a, t, hx, ht⟩
  rw [hx]
  exact R.ofSame ht

theorem raiseError_heeds (e : Error) : Heeds R L G k (raiseError e : Run α) (raiseError e) := by
  apply heeds_of_steady
  intro s
  exact R.ofSame ⟨rfl, rfl, rfl, rfl⟩

theorem exhausted_heeds : Heeds R L G k (exhausted : Run α) exhausted := by
  apply heeds_of_steady
  intro s
  exact rfl

theorem OnlyHeap.heeds {x : Run α} (hx : x.OnlyHeap) : Heeds R L G k x x := by
  apply heeds_of_steady
  intro s
  rcases hx s with ⟨a, heap, hx⟩ | ⟨e, hx⟩
  . rw [hx]
    exact R.ofSame ⟨rfl, rfl, rfl, rfl⟩
  . rw [hx]
    exact R.ofSame ⟨rfl, rfl, rfl, rfl⟩

theorem pure_heeds (a : α) : Heeds R L G k (pure a : Run α) (pure a) := by
  apply heeds_of_same
  intro s
  exact ⟨a, s, rfl, rfl, rfl, rfl, rfl⟩

theorem keep_heeds {held : Held} (hheld : held.waiting? = none) : Heeds R L G k (keep held) (keep held) := by
  apply heeds_of_same
  intro s
  exact ⟨(), { s with held := held :: s.held }, rfl, rfl, rfl, rfl, List.filterMap_cons_none hheld⟩

theorem hold_heeds (value : Value) : Heeds R L G k (hold value) (hold value) := by
  unfold hold
  split
  . exact keep_heeds rfl
  . exact pure_heeds ()

theorem holdAll_heeds (values : List Value) : Heeds R L G k (holdAll values) (holdAll values) := by
  unfold holdAll
  split
  . exact pure_heeds ()
  . exact keep_heeds rfl

theorem setFlow_heeds (flow : Flow) : Heeds R L G k (setFlow flow) (setFlow flow) := by
  apply heeds_of_same
  intro s
  exact ⟨(), s.withFlow flow, rfl, rfl, rfl, rfl, rfl⟩

theorem setRetVal_heeds (value : Value) : Heeds R L G k (setRetVal value) (setRetVal value) := by
  apply heeds_of_same
  intro s
  exact ⟨(), s.withRetVal value, rfl, rfl, rfl, rfl, rfl⟩

theorem modifyStack_heeds {f : Stack → Stack} (hf : ∀ stack, (f stack).outline = stack.outline)
    : Heeds R L G k (modifyStack f) (modifyStack f) := by
  apply heeds_of_same
  intro s
  exact ⟨(), s.withContext { s.context with stack := f s.context.stack }, rfl, rfl, rfl, hf s.context.stack, rfl⟩

theorem read_heeds (f : State → α) : Heeds R L G k (fun s => .ok (f s) s) (fun s => .ok (f s) s) := by
  apply heeds_of_same
  intro s
  exact ⟨f s, s, rfl, rfl, rfl, rfl, rfl⟩

theorem retVal_heeds : Heeds R L G k retVal retVal := read_heeds fun s => s.context.retVal

theorem takeFlow_heeds : Heeds R L G k takeFlow takeFlow := by
  apply heeds_of_same
  intro s
  exact ⟨s.context.flow, s.withFlow .normal, rfl, rfl, rfl, rfl, rfl⟩

theorem located_heeds (e : Error) : Heeds R L G k (located e) (located e) := read_heeds fun s => s.located e

theorem Heeds.locating {x x' : Run α} (hx : Heeds R L G k x x')
    : Heeds R L G k (locating x) (locating x') := by
  unfold Run.locating
  apply hx.capture.bind
  intro r
  cases r with
  | ok a => exact pure_heeds a
  | error e =>
    apply (located_heeds e).bind
    intro e
    apply raiseError_heeds

theorem found_heeds (name : String) (found : Option Module)
    : let given : Run Module :=
        match found with
        | none => Run.raise (.missingModule name)
        | some loaded => return loaded
      Heeds R L G k given given := by
  cases found with
  | none => exact raiseError_heeds _
  | some loaded => exact pure_heeds loaded

theorem settle_heeds (r : Except Error α) (deferred : Option Error)
    : Heeds R L G k (Machine.settle r deferred) (Machine.settle r deferred) := by
  unfold Machine.settle
  split
  . apply raiseError_heeds
  . apply raiseError_heeds
  . apply pure_heeds

theorem ofCaptured_heeds (r : Except Error α) : Heeds R L G k (ofCaptured r) (ofCaptured r) := by
  cases r with
  | ok a => exact pure_heeds a
  | error e => exact raiseError_heeds e

/-- A computation in a context of its own. -/
theorem Heeds.forked {x x' : Run α} (hx : Heeds R L G 0 x x')
    : Heeds R L G 0 (forked x) (forked x') := by
  intro s hs
  rcases Machine.forked_apply s with ⟨context, heap, hforks, happly⟩
  have hstart : L → R.Allows 0 (s.start context heap) := fun hl => R.fork (hs hl) hforks
  apply (hx (s.start context heap) hstart).ending
  . intro h
    unfold State.start at h
    rw [happly x, happly x', h]
  . intro h
    cases hr : x (s.start context heap) with
    | ok a t =>
      rw [hr] at h
      unfold State.start at hr
      rw [happly x, hr]
      have hsettings : t.world.settings = (s.start context heap).world.settings := R.settings h
      exact R.back hsettings
    | error halt t =>
      rw [hr] at h
      unfold State.start at hr
      rw [happly x, hr]
      exact Regime.steady_backIn halt h.settings
  . intro t h
    unfold State.start at h
    refine ⟨t.backIn s, ?_⟩
    rw [happly x', h]
    rfl

end Run

/-- Every callback of `m'` follows that of `m` under a regime. -/
structure Machine.Heeds (R : Regime) (L G : Prop) (m m' : Machine) : Prop where
  fuel : m.fuel = m'.fuel
  eval (e : Expr) : Run.Heeds R L G 0 (m.eval e) (m'.eval e)
  exec (stmt : Stmt) : Run.Heeds R L G 0 (m.exec stmt) (m'.exec stmt)
  invoke (callee this : Value) (args : List Value)
    : Run.Heeds R L G 0 (m.invoke callee this args) (m'.invoke callee this args)
  release (raised : List Value) (calls : List Deferred)
    : Run.Heeds R L G 0 (m.release raised calls) (m'.release raised calls)
  spawn (callee : Value) (args : List Value)
    : Run.Heeds R L G 0 (m.spawn callee args) (m'.spawn callee args)
  native (call : HostCall) (this : Value) (args : List Value)
    : Run.Heeds R L G 0 (m.native call this args) (m'.native call this args)
  loadModule (name : String) (modified : Int64)
    : Run.Heeds R L G 0 (m.loadModule name modified) (m'.loadModule name modified)

section Rules

variable {R : Regime} {L G : Prop} {k : Nat} {m m' : Machine} {l : Level} {α : Type}
variable (hm : m.Heeds R L G m')
include hm

theorem withFrame_heedsAt {x x' : Run α} {s : State} {kind : FrameKind} {scope : ScopeRef}
    (hs : L → R.Allows 0 s) (hx : Run.HeedsAt R L G (s.enter kind scope) x x')
    : Run.HeedsAt R L G s (m.withFrame kind scope x) (m'.withFrame kind scope x') := by
  have hcut {m : Machine} {x : Run α} {halt : Halt} {t : State}
      (h : Run.capture x (s.enter kind scope) = .error halt t) : m.withFrame kind scope x s = .error halt t := by
    show (Run.capture x >>= _) (s.enter kind scope) = _
    exact Run.bind_error h
  rcases hx.capture with ⟨heq, hsteady⟩ | ⟨hg, t, ht⟩
  . cases hr : Run.capture x (s.enter kind scope) with
    | ok r u =>
      rw [hr] at heq hsteady
      -- The calls that were put off run outside of the frame, where the regime allowed to start before.
      have hleft (hl : L) : R.Keeps s u.leave := R.left (hsteady hl)
      have hrelease : Run.Heeds R L G 0
          (m.release (Machine.raisedValues r) u.context.stack.top.defers >>= Machine.settle r)
          (m'.release (Machine.raisedValues r) u.context.stack.top.defers >>= Machine.settle r) := by
        apply (hm.release _ _).bind
        intro deferred
        apply Run.settle_heeds
      apply (hrelease u.leave fun hl => R.allows (hs hl) (hleft hl)).after hleft
      . exact Machine.withFrame_captured hr
      . exact Machine.withFrame_captured heq
    | error halt u =>
      rw [hr] at heq hsteady
      left
      rw [hcut hr, hcut heq]
      refine ⟨rfl, ?_⟩
      intro hl
      have hsteady := hsteady hl
      cases halt with
      | raised e => exact absurd hr (Run.capture_ne_raised _ _ _ _)
      | exhausted => exact hsteady
      | died => exact hsteady
  . exact .inr ⟨hg, t, hcut ht⟩

theorem withBlock_heeds {x x' : Run α} (hx : Run.Heeds R L G k x x')
    : Run.Heeds R L G k (m.withBlock x) (m'.withBlock x') := by
  unfold Machine.withBlock
  apply (Run.read_heeds fun s => s.context.stack.top.scope).bind
  intro outer
  apply (Run.alloc_onlyHeap _).heeds.bind
  intro scope s hs
  apply withFrame_heedsAt hm
  . intro hl
    exact R.mono (hs hl)
  . apply hx
    intro hl
    exact R.block scope (hs hl)

theorem withCall_heeds {x x' : Run Unit} (name : String) (scope : ScopeRef) (hx : Run.Heeds R L G 0 x x')
    : Run.Heeds R L G 1 (m.withCall name scope x) (m'.withCall name scope x') := by
  have hframe : Run.Heeds R L G 1 (Run.deeper (m.withFrame (.function name) scope x))
      (Run.deeper (m'.withFrame (.function name) scope x')) := by
    intro s hs
    apply Run.HeedsAt.deeper
    apply withFrame_heedsAt hm
    . intro hl
      exact R.deeper (hs hl)
    . apply hx
      intro hl
      exact R.function name scope (hs hl)
  unfold Machine.withCall
  apply Run.takeFlow_heeds.bind
  intro flow
  apply Run.retVal_heeds.bind
  intro retVal
  apply (Run.hold_heeds retVal).bind
  intro
  apply (Run.setRetVal_heeds .undefined).bind
  intro
  apply hframe.capture.bind
  intro result
  apply Run.retVal_heeds.bind
  intro value
  apply (Run.setFlow_heeds flow).bind
  intro
  apply (Run.setRetVal_heeds retVal).bind
  intro
  apply (Run.ofCaptured_heeds result).bind
  intro
  apply Run.pure_heeds

theorem runThread_heeds (callee : Value) (args : List Value)
    : Run.Heeds R L G 0 (m.runThread callee args) (m'.runThread callee args) := by
  intro s hs
  rcases Machine.runThread_apply callee args s with ⟨context, heap, hforks, happly⟩
  have hstart : L → R.Allows 0 (s.start context heap) := fun hl => R.fork (hs hl) hforks
  apply ((hm.invoke callee .undefined args).locating.capture (s.start context heap) hstart).ending
  . intro h
    unfold State.start at h
    rw [happly m, happly m', h]
  . intro h
    cases hr : Run.capture (Run.locating (m.invoke callee .undefined args)) (s.start context heap) with
    | ok outcome t =>
      rw [hr] at h
      unfold State.start at hr
      rw [happly m, hr]
      have hsettings : t.world.settings = (s.start context heap).world.settings := R.settings h
      exact R.back hsettings
    | error halt t =>
      rw [hr] at h
      unfold State.start at hr
      rw [happly m, hr]
      cases halt with
      | raised e => exact R.back h.settings
      | exhausted => exact h.settings
      | died => exact R.back h.settings
  . intro t h
    unfold State.start at h
    refine ⟨t.backIn s, ?_⟩
    rw [happly m', h]
    rfl

theorem importModule_heeds (name : String) (forceReload : Bool)
    : Run.Heeds R L G 0 (m.importModule name forceReload) (m'.importModule name forceReload) := by
  refine Machine.importModule_steps m m' (P := fun x x' => Run.Heeds R L G 0 x x') ?_ ?_ hm.loadModule
    name forceReload
  . intro _ x hx
    apply Run.heeds_of_same
    intro s
    rcases hx s with ⟨a, modules, held, h, hwaiting⟩
    exact ⟨a, _, h, rfl, rfl, rfl, hwaiting⟩
  . intro _ _ x x' f f' hx hf
    exact hx.bind hf

theorem Parallel.heeds {x x' : Run α} (h : Parallel m m' l x x') : Run.Heeds R L G 0 x x' := by
  induction h with
  | pure a => exact Run.pure_heeds a
  | bind hx hf ihx ihf => exact ihx.bind ihf
  | read f => exact Run.read_heeds f
  | raiseError e he => exact Run.raiseError_heeds e
  | exhausted => exact Run.exhausted_heeds
  | alloc f hf => exact (Run.alloc_onlyHeap f).heeds
  | declare name bases hx ihx =>
    apply (Run.alloc_onlyHeap _).heeds.bind
    intro type
    apply (ihx type).bind
    intro members
    apply (Run.modifyHeap_onlyHeap _).heeds.bind
    intro
    exact Run.pure_heeds type
  | forceLocal hl name value => exact (Run.forceLocal_onlyHeap name value).heeds
  | defineLocal hl name value => exact (Run.defineLocal_onlyHeap name value).heeds
  | assignVar name value => exact (Run.assignVar_onlyHeap name value).heeds
  | modifyWorld f hf =>
    apply Run.heeds_of_same
    intro s
    exact ⟨(), { s with world := f s.world }, rfl, (hf s.world).1, rfl, rfl, rfl⟩
  | keep held hheld => exact Run.keep_heeds hheld
  | lettingGo hx ih => exact ih.lettingGo
  | locating hx ih => exact ih.locating
  | capture handles hx hok hpass hhandle hfatal ihx ihok ihhandle =>
    apply ihx.capture.bind
    intro r
    cases r with
    | ok a => exact ihok a
    | error e =>
      cases he : handles e with
      | true => exact ihhandle e he
      | false =>
        rw [(hpass e he).1, (hpass e he).2]
        exact Run.raiseError_heeds e
  | withBlock hx ih => exact withBlock_heeds hm ih
  | function name scope hx hb ihb =>
    -- The check makes room for one more call, and making the scope takes none of it.
    apply Run.Heeds.checked
    apply hx.onlyHeap.heeds.bind
    intro a
    exact withCall_heeds hm (name a) (scope a) (ihb a)
  | deeper hx hf ihx ihf =>
    apply Run.Heeds.checked
    apply ihx.mono.bind
    intro a
    exact (ihf a).deeper
  | invoke callee this args => exact hm.invoke callee this args
  | native call this args => exact hm.native call this args
  | importModule name forceReload => exact importModule_heeds hm name forceReload
  | spawn callee args => exact hm.spawn callee args
  | eval hl e => exact hm.eval e
  | addBlockDefer hl callee args isOptional => exact Run.modifyStack_heeds fun stack => rfl
  | exec stmt => exact hm.exec stmt
  | addDefer callee args => exact Run.modifyStack_heeds fun stack => stack.outline_addDefer ⟨callee, args, false⟩
  | setFlow flow => exact Run.setFlow_heeds flow
  | setRetVal value => exact Run.setRetVal_heeds value
  | setPosition pos => exact Run.modifyStack_heeds fun stack => rfl

theorem execStmt_heeds [SameFuel m m'] (stmt : Stmt)
    : Run.Heeds R L G 0 (m.execStmt stmt) (m'.execStmt stmt) := by
  cases hcleanup : stmt.hasCleanup with
  | false => exact (Parallel.execStmt stmt hcleanup).heeds hm
  | true =>
    rcases Stmt.eq_of_hasCleanup hcleanup with ⟨pos, body, handler, cleanup, hstmt⟩
    rw [hstmt]
    apply (Parallel.heeds hm (.setPosition pos)).bind
    intro
    apply Run.Heeds.locating
    apply Run.Heeds.bind
    . apply Run.Heeds.capture
      exact Parallel.heeds hm (.lettingGo (.execGuarded (.execBlock body) handler))
    . intro result
      dsimp only
      rw [Machine.cleanUp_eq, Machine.cleanUp_eq]
      apply (Parallel.heeds hm (.cleansUp cleanup _)).bind
      intro again
      split
      . exact Run.ofCaptured_heeds result
      . exact Run.pure_heeds ()

theorem makeCall_heeds (call : Deferred) (calls : List Deferred)
    : Run.Heeds R L G 0 (m.makeCall call calls) (m'.makeCall call calls) := by
  apply Run.Heeds.lettingGo
  apply (Run.hold_heeds call.callee).bind
  intro
  apply (Run.keep_heeds rfl).bind
  intro
  apply hm.invoke

theorem runDefersFrom_heeds (first : Option Error) (calls : List Deferred)
    : Run.Heeds R L G 0 (Machine.runDefers.go m first calls) (Machine.runDefers.go m' first calls) := by
  induction calls generalizing first with
  | nil => exact Run.pure_heeds first
  | cons call calls ih =>
    intro s hs
    unfold Run.HeedsAt
    cases hcallable : s.heap.isCallable call.callee with
    | true =>
      rw [Machine.runDefersFrom_call hcallable, Machine.runDefersFrom_call hcallable]
      apply (makeCall_heeds hm call calls).capture.bind
      . intro r
        apply (Run.setFlow_heeds .normal).bind
        intro
        apply ih
      . exact hs
    | false =>
      by_cases hskip : call.isOptional || first.isSome
      . rw [Machine.runDefersFrom_skip hcallable hskip, Machine.runDefersFrom_skip hcallable hskip]
        exact ih first s hs
      . rw [Machine.runDefersFrom_fault hcallable hskip, Machine.runDefersFrom_fault hcallable hskip]
        apply (Run.located_heeds _).bind
        . intro e
          apply ih
        . exact hs

theorem runDefers_heeds (raised : List Value) (calls : List Deferred)
    : Run.Heeds R L G 0 (m.runDefers raised calls) (m'.runDefers raised calls) := by
  unfold Machine.runDefers
  split
  . apply Run.pure_heeds
  . apply Run.takeFlow_heeds.bind
    intro flow
    apply Run.retVal_heeds.bind
    intro retVal
    apply Run.Heeds.bind
    . apply Run.Heeds.lettingGo
      apply (Run.hold_heeds retVal).bind
      intro
      apply (Run.holdAll_heeds raised).bind
      intro
      exact runDefersFrom_heeds hm none calls
    . intro first
      apply (Run.setFlow_heeds flow).bind
      intro
      apply (Run.setRetVal_heeds retVal).bind
      intro
      apply Run.pure_heeds

theorem runRootDefers_heeds (raised : List Value)
    : Run.Heeds R L G 0 (m.runRootDefers raised) (m'.runRootDefers raised) := by
  intro s hs
  let stack := s.context.stack
  let t : State := s.withContext { s.context with stack := stack.takeRootDefers.2 }
  have ht : R.Keeps s t := R.ofSame ⟨rfl, rfl, stack.outline_takeRootDefers, rfl⟩
  exact (hm.release raised stack.takeRootDefers.1 t fun hl => R.allows (hs hl) ht).after (fun _ => ht) rfl rfl

theorem evalBlock_heeds (stmts : List Stmt)
    : Run.Heeds R L G 0 (m.evalBlock stmts) (m'.evalBlock stmts) := by
  unfold Machine.evalBlock
  apply ((Parallel.execAll stmts).heeds hm).bind
  intro
  apply (Parallel.finishFlow.heeds hm).bind
  intro
  exact Run.retVal_heeds

theorem runModule_heeds (stmts : List Stmt)
    : Run.Heeds R L G 0 (m.runModule stmts) (m'.runModule stmts) := by
  unfold Machine.runModule
  apply Run.Heeds.bind
  . apply Run.Heeds.capture
    apply ((Parallel.execAll stmts).heeds hm).bind
    intro
    exact Parallel.finishFlow.heeds hm
  intro result
  apply (runRootDefers_heeds hm _).bind
  intro deferred
  apply (Run.settle_heeds result deferred).bind
  intro
  apply (Parallel.exports.heeds hm (l := .call)).bind
  intro exports
  apply (Run.setRetVal_heeds _).bind
  intro
  apply Run.pure_heeds

end Rules

/-- The functions and the importer of a host follow if what they call back into does. -/
structure Host.Heeds (R : Regime) (L G : Prop) (host : Host) : Prop where
  native {m m' : Machine} (hm : m.Heeds R L G m') (call : HostCall) (this : Value) (args : List Value)
    : Run.Heeds R L G 0 (host.native m call this args) (host.native m' call this args)
  importer {m m' : Machine} (hm : m.Heeds R L G m')
    {load : Machine → String → Int64 → Run (Option Module)} (h : host.importer = some load)
    (name : String) (modified : Int64)
    : Run.Heeds R L G 0 (load m name modified) (load m' name modified)

/-- Stops with `alarm` where `P` does not hold. -/
def Run.asserting {α : Type} (P : State → Prop) [DecidablePred P] (alarm : Halt) (x : Run α) : Run α := fun s =>
  if P s then x s else .error alarm s

/-- The machine that looks whether `P` holds whenever something is evaluated or called. -/
def Machine.asserting (P : State → Prop) [DecidablePred P] (alarm : Halt) (m : Machine) : Machine where
  fuel := m.fuel
  eval e := (m.eval e).asserting P alarm
  exec stmt := (m.exec stmt).asserting P alarm
  invoke callee this args := (m.invoke callee this args).asserting P alarm
  release raised calls := (m.release raised calls).asserting P alarm
  spawn callee args := (m.spawn callee args).asserting P alarm
  native call this args := (m.native call this args).asserting P alarm
  importer := m.importer.map fun load => fun name modified => (load name modified).asserting P alarm

/-- The machine that evaluates up to `n` levels deep with a check at every level. -/
def Host.checking (host : Host) (check : Machine → Machine) : Nat → Machine
  | 0 => .spent
  | n + 1 => check (host.above n (host.checking check n))

section Machine

variable {R : Regime} {L G : Prop} {host : Host} {m m' : Machine}

theorem loadModule_heeds (hhost : host.Heeds R L G) (hm : m.Heeds R L G m') (fuel : Nat) (name : String)
    (modified : Int64)
    : Run.Heeds R L G 0 ((host.above fuel m).loadModule name modified)
        ((host.above fuel m').loadModule name modified) := by
  unfold Machine.loadModule Host.above
  dsimp only
  cases himporter : host.importer with
  | none => exact Run.raiseError_heeds _
  | some load =>
    exact (hhost.importer hm himporter name modified).bind (Run.found_heeds name)

theorem above_heeds (hhost : host.Heeds R L G) (hm : m.Heeds R L G m') (fuel : Nat)
    : (host.above fuel m).Heeds R L G (host.above fuel m') := by
  have hfuel : SameFuel m m' := ⟨hm.fuel⟩
  constructor
  case fuel => rfl
  case eval =>
    intro e
    rw [above_eval, above_eval]
    exact ((Parallel.evalExpr Level.expr_ne_call e).heeds hm).lettingGo
  case exec =>
    intro stmt
    rw [above_exec, above_exec]
    exact (execStmt_heeds hm stmt).lettingGo
  case invoke =>
    intro callee this args
    rw [above_invoke, above_invoke]
    exact (Parallel.heeds hm (l := .call) (.invokeWith callee this args)).lettingGo
  case release => exact runDefers_heeds hm
  case spawn => exact runThread_heeds hm
  case native => exact hhost.native hm
  case loadModule => exact loadModule_heeds hhost hm fuel

theorem spent_heeds : Machine.spent.Heeds R L G Machine.spent := by
  constructor
  case fuel => rfl
  case eval => exact fun _ => Run.exhausted_heeds
  case exec => exact fun _ => Run.exhausted_heeds
  case invoke => exact fun _ _ _ => Run.exhausted_heeds
  case release => exact fun _ _ => Run.exhausted_heeds
  case spawn => exact fun _ _ => Run.exhausted_heeds
  case native => exact fun _ _ _ => Run.exhausted_heeds
  case loadModule =>
    intro name modified
    exact Run.exhausted_heeds.bind (Run.found_heeds name)

/-- Checks that let a machine do what it does let every level of evaluation do so. -/
theorem checking_heeds (hhost : host.Heeds R L G) {check : Machine → Machine}
    (hcheck : ∀ m m' : Machine, m.Heeds R L G m' → m.Heeds R L G (check m')) (n : Nat)
    : (host.machine n).Heeds R L G (host.checking check n) := by
  induction n with
  | zero => exact spent_heeds
  | succ n ih =>
    apply hcheck
    exact above_heeds hhost ih n

section Asserting

variable {P : State → Prop} [DecidablePred P] {alarm : Halt}

theorem Run.Heeds.asserting {α : Type} {x x' : Run α} (hP : ∀ s, R.Allows 0 s → P s)
    (h : Heeds R True False 0 x x')
    : Heeds R True False 0 x (x'.asserting P alarm) := by
  intro s hs
  have hasserting : x'.asserting P alarm s = x' s := if_pos (hP s (hs trivial))
  unfold HeedsAt
  rw [hasserting]
  exact h s hs

theorem Machine.Heeds.asserting (hP : ∀ s, R.Allows 0 s → P s) (hm : m.Heeds R True False m')
    : m.Heeds R True False (m'.asserting P alarm) := by
  constructor
  case fuel => exact hm.fuel
  case eval => exact fun e => (hm.eval e).asserting hP
  case exec => exact fun stmt => (hm.exec stmt).asserting hP
  case invoke => exact fun callee this args => (hm.invoke callee this args).asserting hP
  case release => exact fun raised calls => (hm.release raised calls).asserting hP
  case spawn => exact fun callee args => (hm.spawn callee args).asserting hP
  case native => exact fun call this args => (hm.native call this args).asserting hP
  case loadModule =>
    intro name modified s hs
    have hsame : (m'.asserting P alarm).loadModule name modified s = m'.loadModule name modified s := by
      unfold Machine.loadModule Machine.asserting
      cases m'.importer with
      | none => rfl
      | some load =>
        have hasserting : (load name modified).asserting P alarm s = load name modified s :=
          if_pos (hP s (hs trivial))
        dsimp only [Option.map_some]
        rw [Run.bind_apply, Run.bind_apply, hasserting]
    unfold Run.HeedsAt
    rw [hsame]
    exact hm.loadModule name modified s hs

/-- What the regime makes sure of holds whenever something is evaluated or called. -/
theorem asserting_heeds (hhost : host.Heeds R True False) (hP : ∀ s, R.Allows 0 s → P s) (alarm : Halt) (n : Nat)
    : (host.machine n).Heeds R True False (host.checking (Machine.asserting P alarm) n) := by
  apply checking_heeds hhost
  intro m m' hm
  exact hm.asserting hP

end Asserting

/-- A computation that never gives up does the same wherever the regime allows it to start. -/
theorem Run.Heeds.eq {α : Type} {x x' : Run α} (h : Heeds R True False 0 x x') {s : State} (hs : R.Allows 0 s)
    : x' s = x s := by
  rcases h s fun _ => hs with ⟨heq, _⟩ | ⟨hfalse, _⟩
  . exact heq
  . exact hfalse.elim

/-- It keeps what has to be kept, too. -/
theorem Run.Heeds.keeps {α : Type} {x x' : Run α} (h : Heeds R True False 0 x x') {s t : State} (hs : R.Allows 0 s)
    (ht : x.Ends s t)
    : R.Keeps s t := by
  rcases h s fun _ => hs with ⟨_, hsteady⟩ | ⟨hfalse, _⟩
  . have hsteady := hsteady trivial
    rcases ht with ⟨a, ht⟩ | ⟨e, ht⟩
    . rw [ht] at hsteady
      exact hsteady
    . rw [ht] at hsteady
      exact hsteady
  . exact hfalse.elim

/-- Every level of evaluation follows itself. -/
theorem machine_heeds (hhost : host.Heeds R L G) (n : Nat)
    : (host.machine n).Heeds R L G (host.machine n) := by
  induction n with
  | zero => exact spent_heeds
  | succ n ih => exact above_heeds hhost ih n

end Machine

end ScriptEngine
