import ScriptEngine.Eval.Call
import ScriptEngine.Eval.Modules
import ScriptEngine.Proofs.Scopes

/-!
This module contains what the computations on the state do, written out: the state that each of
them leaves, and the ways in which a computation of several steps ends.
-/

namespace ScriptEngine

namespace Stack

/-- The kinds and the scopes of the frames. -/
def outline (s : Stack) : List (FrameKind × ScopeRef) := s.frames.map fun f => (f.kind, f.scope)

theorem outline_ofFrames {s : Stack} {frames : List Frame}
    (h : frames.map (fun f => (f.kind, f.scope)) = s.frames.map fun f => (f.kind, f.scope))
    : (s.ofFrames frames).outline = s.outline := by
  cases frames with
  | nil => rfl
  | cons top below => exact h

theorem outline_addDefer (s : Stack) (call : Deferred) : (s.addDefer call).outline = s.outline := by
  apply outline_ofFrames
  induction s.frames with
  | nil => rfl
  | cons frame frames ih =>
    unfold addDefer.go
    split
    . rfl
    . rw [List.map_cons, List.map_cons, ih]

theorem outline_takeRootDefers (s : Stack) : s.takeRootDefers.2.outline = s.outline := by
  apply outline_ofFrames
  fun_induction takeRootDefers.go s.frames with
  | case1 => rfl
  | case2 frame => rfl
  | case3 frame frames _ defers rest hrest ih =>
    rw [hrest] at ih
    rw [List.map_cons, List.map_cons, ← ih]

theorem outline_pop {s t : Stack} {frame : FrameKind × ScopeRef} (h : t.outline = frame :: s.outline)
    : t.pop.outline = s.outline := by
  rcases t with ⟨top, below⟩
  injection h with _ h
  cases below with
  | nil => cases h
  | cons next below => exact h

end Stack

/-- The context that waits, if it is a context that is held on to. -/
def Held.waiting? : Held → Option Context
  | .context c => some c
  | _ => none

namespace Context

/-- The context after a frame was entered at the current position. -/
def enter (c : Context) (kind : FrameKind) (scope : ScopeRef) : Context :=
  { c with stack := c.stack.push ⟨kind, scope, c.stack.top.position, []⟩ }

/-- The context after the innermost frame was left. -/
def leave (c : Context) : Context := { c with stack := c.stack.pop }

end Context

namespace State

def withContext (s : State) (c : Context) : State := { s with context := c }

@[simp]
theorem withContext_context (s : State) (c : Context) : (s.withContext c).context = c := rfl

@[simp]
theorem withContext_heap (s : State) (c : Context) : (s.withContext c).heap = s.heap := rfl

@[simp]
theorem withContext_world (s : State) (c : Context) : (s.withContext c).world = s.world := rfl

@[simp]
theorem withContext_held (s : State) (c : Context) : (s.withContext c).held = s.held := rfl

/-- The state after a frame was entered. -/
def enter (s : State) (kind : FrameKind) (scope : ScopeRef) : State :=
  s.withContext (s.context.enter kind scope)

/-- The state after the innermost frame was left. -/
def leave (s : State) : State := s.withContext s.context.leave

def withDepth (s : State) (depth : Nat) : State := s.withContext { s.context with depth := depth }

/-- The state after a call was left. -/
def shallower (s : State) : State := s.withDepth (s.context.depth - 1)

/-- If what runs during a call keeps the number of active calls, the call does, too. -/
theorem depth_shallower {s t : State} (h : t.context.depth = s.context.depth + 1)
    : t.shallower.context.depth = s.context.depth := Nat.sub_eq_of_eq_add h

def withFlow (s : State) (flow : Flow) : State := s.withContext { s.context with flow := flow }

/-- The state with the signal and the value of the statement that a context had. -/
def resume (s : State) (c : Context) : State :=
  s.withContext { s.context with flow := c.flow, retVal := c.retVal }

/-- An error at the current position. -/
def located (s : State) (e : Error) : Error :=
  e.locate s.context.stack.top.position fun _ => s.context.stack.backtrace

/-- A context of its own, and the heap with the scope that was made for it inside the global one. -/
def Forks (s : State) (context : Context) (heap : Heap) : Prop :=
  ∃ scope position exports, context = .new scope position exports ∧
    s.heap.scopes.Opened heap.scopes scope ∧ heap.scopes.parent? scope = some s.world.globals

theorem Forks.depth {s : State} {context : Context} {heap : Heap} (h : s.Forks context heap)
    : context.depth = 0 := by
  rcases h with ⟨_, _, _, hnew, _⟩
  rw [hnew]
  rfl

def withRetVal (s : State) (value : Value) : State := s.withContext { s.context with retVal := value }

/-- The contexts that wait until the running one is done, the last one first. -/
def waiting (s : State) : List Context := s.held.filterMap Held.waiting?

/-- The state with other modules kept. -/
def withModules (s : State) (modules : Table Module) : State :=
  { s with world := { s.world with modules := modules } }

end State

namespace Run

variable {α β : Type}

theorem pure_apply (a : α) (s : State) : (pure a : Run α) s = .ok a s := rfl

theorem bind_apply (x : Run α) (f : α → Run β) (s : State)
    : (x >>= f) s =
        match x s with
        | .ok a t => f a t
        | .error halt t => .error halt t := by
  show EStateM.bind x f s = _
  unfold EStateM.bind
  cases x s <;> rfl

theorem bind_ok {x : Run α} {f : α → Run β} {s t : State} {a : α} (h : x s = .ok a t)
    : (x >>= f) s = f a t := by
  rw [bind_apply, h]

theorem bind_error {x : Run α} {f : α → Run β} {s t : State} {halt : Halt} (h : x s = .error halt t)
    : (x >>= f) s = .error halt t := by
  rw [bind_apply, h]

theorem capture_ok {x : Run α} {s t : State} {a : α} (h : x s = .ok a t)
    : capture x s = .ok (.ok a) t := by
  simp only [capture, h]

theorem capture_raised {x : Run α} {s t : State} {e : Error} (h : x s = .error (.raised e) t)
    : capture x s = .ok (.error e) t := by
  simp only [capture, h]

theorem capture_halted {x : Run α} {s t : State} {halt : Halt} (h : x s = .error halt t)
    (hhalt : ∀ e, halt ≠ .raised e)
    : capture x s = .error halt t := by
  unfold capture
  rw [h]
  cases halt with
  | raised e => exact absurd rfl (hhalt e)
  | exhausted => rfl
  | died => rfl

theorem hold_apply (value : Value) (s : State) : ∃ held, hold value s = .ok () { s with held := held } := by
  unfold hold
  split
  . exact ⟨_, rfl⟩
  . exact ⟨s.held, rfl⟩

theorem holdAll_apply (values : List Value) (s : State)
    : ∃ held, holdAll values s = .ok () { s with held := held } := by
  unfold holdAll
  split
  . exact ⟨s.held, rfl⟩
  . exact ⟨_, rfl⟩

/-- Changes the state in which a computation ends, with a result or with an error. -/
def finishing (f : State → State) (x : Run α) : Run α := fun s =>
  match x s with
  | .ok a t => .ok a (f t)
  | .error (.raised e) t => .error (.raised e) (f t)
  | .error halt t => .error halt t

/-- The integer that a computation gives, if it gives one. -/
def int? (x : Run Value) (s : State) : Option Int64 :=
  match x s with
  | .ok (.int i) _ => some i
  | _ => none

/-- The states in which a computation ends, with a result or with an error. -/
def Ends (x : Run α) (s t : State) : Prop :=
  (∃ a, x s = .ok a t) ∨ ∃ e, x s = .error (.raised e) t

theorem Ends.ok {x : Run α} {s t : State} {a : α} (h : x s = .ok a t) : x.Ends s t :=
  .inl ⟨a, h⟩

theorem Ends.raised {x : Run α} {s t : State} {e : Error} (h : x s = .error (.raised e) t)
    : x.Ends s t :=
  .inr ⟨e, h⟩

theorem Ends.congr {x y : Run α} {s t u : State} (h : x.Ends s t) (hxy : x s = y u) : y.Ends u t := by
  unfold Ends at h ⊢
  rw [hxy] at h
  exact h

theorem ends_pure {a : α} {s t : State} (h : (pure a : Run α).Ends s t) : t = s := by
  rcases h with ⟨b, h⟩ | ⟨e, h⟩
  . injection h with _ h
    exact h.symm
  . injection h

theorem ends_raiseError {e : Error} {s t : State} (h : (raiseError e : Run α).Ends s t) : t = s := by
  rcases h with ⟨a, h⟩ | ⟨e, h⟩
  . injection h
  . injection h with _ h
    exact h.symm

theorem ends_bind {x : Run α} {f : α → Run β} {s t : State} (h : (x >>= f).Ends s t)
    : (∃ e, x s = .error (.raised e) t) ∨ ∃ a u, x s = .ok a u ∧ (f a).Ends u t := by
  unfold Ends at h
  rw [bind_apply] at h
  cases hx : x s with
  | ok a u =>
    rw [hx] at h
    exact .inr ⟨a, u, rfl, h⟩
  | error halt u =>
    rw [hx] at h
    left
    rcases h with ⟨b, h⟩ | ⟨e, h⟩
    . injection h
    . injection h with h1 h2
      rw [h1, h2]
      exact ⟨e, rfl⟩

theorem bind_raised {x : Run α} {f : α → Run β} {s t : State} {e : Error}
    (h : (x >>= f) s = .error (.raised e) t)
    : x s = .error (.raised e) t ∨ ∃ a u, x s = .ok a u ∧ f a u = .error (.raised e) t := by
  rw [bind_apply] at h
  cases hx : x s with
  | ok a u =>
    rw [hx] at h
    exact .inr ⟨a, u, rfl, h⟩
  | error halt u =>
    rw [hx] at h
    injection h with hhalt ht
    rw [hhalt, ht]
    exact .inl rfl

theorem ok_of_bind {x : Run α} {f : α → Run β} {s t : State} {b : β} (h : (x >>= f) s = .ok b t)
    : ∃ a u, x s = .ok a u ∧ f a u = .ok b t := by
  rw [bind_apply] at h
  cases hx : x s with
  | ok a u =>
    rw [hx] at h
    exact ⟨a, u, rfl, h⟩
  | error halt u =>
    rw [hx] at h
    injection h

theorem ok_of_lettingGo {x : Run α} {s t : State} {a : α} (h : lettingGo x s = .ok a t)
    : ∃ u, x s = .ok a u ∧ t = { u with held := s.held } := by
  unfold lettingGo at h
  cases hx : x s with
  | ok b u =>
    rw [hx] at h
    injection h with hvalue ht
    rw [hvalue]
    exact ⟨u, rfl, ht.symm⟩
  | error halt u =>
    rw [hx] at h
    injection h

theorem captured_ok {x : Run α} {s t : State} {a : α} (h : capture x s = .ok (.ok a) t)
    : x s = .ok a t := by
  unfold capture at h
  cases hx : x s with
  | ok b u => simp_all
  | error halt u => cases halt <;> simp_all

theorem captured_error {x : Run α} {s t : State} {e : Error} (h : capture x s = .ok (.error e) t)
    : x s = .error (.raised e) t := by
  unfold capture at h
  cases hx : x s with
  | ok b u => simp_all
  | error halt u => cases halt <;> simp_all

theorem ends_capture {x : Run α} {s t : State} (h : (capture x).Ends s t) : x.Ends s t := by
  unfold Ends capture at h
  cases hx : x s with
  | ok a u => simp_all [Ends]
  | error halt u => cases halt <;> simp_all [Ends]

/-- A computation whose error is given as a result raises none. -/
theorem capture_ne_raised (x : Run α) (s t : State) (e : Error)
    : capture x s ≠ .error (.raised e) t := by
  unfold capture
  intro h
  cases hx : x s with
  | ok a u => simp_all
  | error halt u => cases halt <;> simp_all

theorem ends_capture_bind {x : Run α} {f : Except Error α → Run β} {s t : State}
    (h : (capture x >>= f).Ends s t)
    : ∃ r u, capture x s = .ok r u ∧ x.Ends s u ∧ (f r).Ends u t := by
  rcases ends_bind h with ⟨e, h⟩ | ⟨r, u, hx, hf⟩
  . exact absurd h (capture_ne_raised x s t e)
  . exact ⟨r, u, hx, ends_capture (.ok hx), hf⟩

theorem ends_lettingGo {x : Run α} {s t : State} (h : (lettingGo x).Ends s t)
    : ∃ u, x.Ends s u ∧ t = { u with held := s.held } := by
  unfold Ends lettingGo at h
  cases hx : x s with
  | ok a u =>
    simp only [hx, EStateM.Result.ok.injEq, reduceCtorEq, exists_false, or_false] at h
    rcases h with ⟨b, h1, h2⟩
    exact ⟨u, .ok hx, h2.symm⟩
  | error halt u =>
    simp only [hx, EStateM.Result.error.injEq, reduceCtorEq, exists_false, false_or] at h
    rcases h with ⟨e, h1, h2⟩
    rw [h1] at hx
    exact ⟨u, .raised hx, h2.symm⟩

/-- A computation in another context. What it does to that context is given back with its result. -/
theorem inContext_apply (context : Context) (x : Run α) (s : State)
    : inContext context x s =
        match x { s with context := context, held := .context s.context :: s.held } with
        | .ok a t => .ok (.ok a, t.context) { t with context := s.context, held := s.held }
        | .error halt t => .ok (.error halt, t.context) { t with context := s.context, held := s.held } := by
  have h : inContext context x s =
      (captureHalt (lettingGo (keep (.context s.context) >>= fun _ => x)) >>= fun r =>
        getContext >>= fun c => modifyContext (fun _ => s.context) >>= fun _ => pure (r, c))
        (s.withContext context) := rfl
  rw [h, bind_apply]
  unfold captureHalt lettingGo
  have h : (keep (.context s.context) >>= fun _ => x) (s.withContext context) =
      x { s with context := context, held := .context s.context :: s.held } := rfl
  rw [h]
  cases x { s with context := context, held := .context s.context :: s.held } <;> rfl

theorem newContext_apply (position : Position) (s : State)
    : ∃ context heap, s.Forks context heap ∧ newContext position s = .ok context { s with heap := heap } := by
  have hmade := Scopes.made_add s.heap.scopes (some s.world.globals)
  have hparent := hmade.parent (s.heap.scopes.add (some s.world.globals)).1
  rw [if_pos rfl] at hparent
  exact ⟨_, _, ⟨_, position, _, rfl, hmade.opened, hparent⟩, rfl⟩

theorem ends_finishing {f : State → State} {x : Run α} {s t : State} (h : (finishing f x).Ends s t)
    : ∃ u, x.Ends s u ∧ t = f u := by
  unfold Ends finishing at h
  cases hx : x s with
  | ok a u =>
    refine ⟨u, .ok hx, ?_⟩
    simp_all
  | error halt u =>
    cases halt with
    | raised e =>
      refine ⟨u, .raised hx, ?_⟩
      simp_all
    | exhausted => simp_all
    | died => simp_all

/-- What follows a captured computation and gives its end back, changed only in its state. -/
theorem capture_finishing {x : Run α} {k : Except Error α → Run β} {g : α → Run β} {f : State → State}
    (hok : ∀ a t, k (.ok a) t = finishing f (g a) t)
    (herror : ∀ e t, k (.error e) t = .error (.raised e) (f t)) (s : State)
    : (capture x >>= k) s = finishing f (x >>= g) s := by
  rw [bind_apply]
  unfold capture
  cases hx : x s with
  | ok a t =>
    show k (.ok a) t = _
    rw [hok]
    unfold finishing
    rw [bind_ok hx]
  | error halt t =>
    unfold finishing
    rw [bind_error hx]
    cases halt with
    | raised e => exact herror e t
    | exhausted => rfl
    | died => rfl

theorem deeper_apply (x : Run α) (s : State)
    : deeper x s =
        finishing State.shallower x (s.withDepth (s.context.depth + 1)) := by
  have hdeeper : deeper x s =
      (capture x >>= fun r => leaveCall >>= fun _ => ofCaptured r)
        (s.withDepth (s.context.depth + 1)) := rfl
  have hpure : finishing State.shallower x = finishing State.shallower (x >>= pure) := by
    rw [bind_pure]
  rw [hdeeper, hpure]
  apply capture_finishing
  . intro a t
    rfl
  . intro e t
    rfl

theorem checkDepth_apply (s : State)
    : checkDepth s =
        if s.world.settings.maxDepth ≤ s.context.depth then
          .error (.raised (.ofCause (.tooManyCalls s.world.settings.maxDepth))) s
        else
          .ok () s := by
  have h : checkDepth s = (if s.world.settings.maxDepth ≤ s.context.depth then
      raise (.tooManyCalls s.world.settings.maxDepth) else pure () : Run Unit) s := rfl
  rw [h]
  split
  . rfl
  . rfl

theorem ends_checkDepth {s t : State} (h : checkDepth.Ends s t) : t = s := by
  unfold Ends at h
  rw [checkDepth_apply] at h
  split at h
  . rcases h with ⟨_, h⟩ | ⟨_, h⟩
    . injection h
    . injection h with _ h
      exact h.symm
  . rcases h with ⟨_, h⟩ | ⟨_, h⟩
    . injection h with _ h
      exact h.symm
    . injection h

theorem ends_deeper {x : Run α} {s t : State} (h : (deeper x).Ends s t)
    : ∃ u, x.Ends (s.withDepth (s.context.depth + 1)) u ∧ t = u.shallower := by
  exact ends_finishing (h.congr (deeper_apply x s))

/--
A computation that gives a result and changes at most which modules are kept and what is held on to,
apart from the contexts that wait.
-/
def OnlyModules (x : Run α) : Prop :=
  ∀ s, ∃ a modules held, x s = .ok a { s.withModules modules with held := held } ∧
    held.filterMap Held.waiting? = s.waiting

theorem pure_onlyModules (a : α) : (pure a : Run α).OnlyModules := by
  intro s
  exact ⟨a, s.world.modules, s.held, rfl, rfl⟩

theorem getWorld_onlyModules : getWorld.OnlyModules := by
  intro s
  exact ⟨s.world, s.world.modules, s.held, rfl, rfl⟩

theorem hold_onlyModules (value : Value) : (hold value).OnlyModules := by
  intro s
  unfold hold
  split
  . exact ⟨(), s.world.modules, .value value :: s.held, rfl, rfl⟩
  . exact ⟨(), s.world.modules, s.held, rfl, rfl⟩

end Run

namespace Machine

theorem keepModule_apply (name : String) (loaded : Module) (s : State)
    : keepModule name loaded s = .ok loaded.value
        (if loaded.value.isUndefined then s else s.withModules (s.world.modules.put name loaded)) := by
  unfold keepModule
  cases loaded.value.isUndefined <;> rfl

theorem keepModule_onlyModules (name : String) (loaded : Module) : (keepModule name loaded).OnlyModules := by
  intro s
  rw [keepModule_apply]
  split
  . exact ⟨loaded.value, s.world.modules, s.held, rfl, rfl⟩
  . exact ⟨loaded.value, s.world.modules.put name loaded, s.held, rfl, rfl⟩

theorem importModule_none {m : Machine} {name : String} {s : State} (h : s.world.modules.get? name = none)
    (forceReload : Bool)
    : m.importModule name forceReload s = (m.loadModule name 0 >>= keepModule name) s := by
  unfold importModule
  rw [Run.bind_ok (rfl : Run.getWorld s = .ok s.world s), h]

theorem importModule_kept {m : Machine} {name : String} {s : State} {kept : Module}
    (h : s.world.modules.get? name = some kept) {forceReload : Bool}
    (hstays : forceReload = false ∨ kept.modified = 0)
    : m.importModule name forceReload s = .ok kept.value s := by
  have hgiven : (!forceReload || kept.modified == 0) = true := by
    rcases hstays with hforce | hmodified
    . rw [hforce]
      rfl
    . rw [hmodified]
      simp
  unfold importModule
  rw [Run.bind_ok (rfl : Run.getWorld s = .ok s.world s), h]
  dsimp only
  rw [if_pos hgiven]
  rfl

/-- A module that can change is loaded again. -/
theorem importModule_reload {m : Machine} {name : String} {s : State} {kept : Module}
    (h : s.world.modules.get? name = some kept) (hmodified : kept.modified ≠ 0)
    : ∃ held, m.importModule name true s =
        (m.loadModule name kept.modified >>= fun loaded =>
          if loaded.modified == kept.modified then pure kept.value else keepModule name loaded)
          { s with held := held } := by
  rcases Run.hold_apply kept.value s with ⟨held, hheld⟩
  refine ⟨held, ?_⟩
  have hgiven : ¬((!true || kept.modified == 0) = true) := by
    simp [hmodified]
  unfold importModule
  rw [Run.bind_ok (rfl : Run.getWorld s = .ok s.world s), h]
  dsimp only
  rw [if_neg hgiven, Run.bind_ok hheld]

/-- What holds of the steps of an import, side by side over two machines, holds of the import. -/
theorem importModule_steps (m m' : Machine) {P : {α : Type} → Run α → Run α → Prop}
    (hmodules : ∀ {α : Type} {x : Run α}, x.OnlyModules → P x x)
    (hbind : ∀ {α β : Type} {x x' : Run α} {f f' : α → Run β}, P x x' → (∀ a, P (f a) (f' a)) →
      P (x >>= f) (x' >>= f'))
    (hload : ∀ name modified, P (m.loadModule name modified) (m'.loadModule name modified))
    (name : String) (forceReload : Bool)
    : P (m.importModule name forceReload) (m'.importModule name forceReload) := by
  unfold importModule
  apply hbind (hmodules Run.getWorld_onlyModules)
  intro world
  split
  . apply hbind (hload name 0)
    intro loaded
    exact hmodules (keepModule_onlyModules name loaded)
  . next kept _ =>
    split
    . exact hmodules (Run.pure_onlyModules kept.value)
    . apply hbind (hmodules (Run.hold_onlyModules kept.value))
      intro
      apply hbind (hload name kept.modified)
      intro loaded
      split
      . exact hmodules (Run.pure_onlyModules kept.value)
      . exact hmodules (keepModule_onlyModules name loaded)

end Machine

end ScriptEngine
