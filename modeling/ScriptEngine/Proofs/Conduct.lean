import ScriptEngine.Proofs.Deferred

/-!
This module contains what evaluations do to the scopes and to the modules, and which errors they end
with. A conduct relates the state before a computation, the way in which it ended, and the state after
it. That the machine of every host keeps to a conduct is proved here once for all of them.
-/

namespace ScriptEngine

/-- The state after something that concerns neither the scopes, the modules nor the outline of the frames. -/
structure State.Calm (s t : State) : Prop where
  scopes : t.heap.scopes = s.heap.scopes
  globals : t.world.globals = s.world.globals
  modules : t.world.modules = s.world.modules
  outline : t.context.stack.outline = s.context.stack.outline

/-- How a computation ends that does not run out of steps. -/
inductive Outcome where
  | ok
  | raised (e : Error)
  /-- The frames that were entered are not left. -/
  | died

def Outcome.ofError? : Option Error → Outcome
  | none => ok
  | some e => raised e

/-- A relation of states and outcomes that is kept by all rules if it is kept by what they call back into. -/
structure Conduct (R : Level → State → Outcome → State → Prop) : Prop where
  calm {l : Level} {s t : State} (h : s.Calm t) : R l s .ok t
  calmed {l : Level} {s t u : State} {o : Outcome} (h : R l s o t) (h' : t.Calm u) : R l s o u
  trans {l : Level} {s t u : State} {o : Outcome} (h : R l s .ok t) (h' : R l t o u) : R l s o u
  /-- Something else happens before an error is raised again. -/
  later {l : Level} {s t u : State} {e : Error} (h : R l s (.raised e) t) (h' : R l t .ok u)
    : R l s (.raised e) u
  handled {l : Level} {s t : State} {e : Error} (h : R l s (.raised e) t) : R l s .ok t
  ofCall {l : Level} {s t : State} {o : Outcome} (h : R .call s o t) : R l s o t
  ofExpr {l : Level} {s t : State} {o : Outcome} (hl : l ≠ .call) (h : R .expr s o t) : R l s o t
  raise {l : Level} {s : State} {e : Error} (he : e.backtrace = none) : R l s (.raised e) s
  located {l : Level} {s t : State} {e : Error} (h : R l s (.raised e) t) : R l s (.raised (t.located e)) t
  force (s : State) (name : String) (value : Value)
    : R .expr s .ok (s.withScopes (s.heap.scopes.force s.scope name value))
  assign {s : State} {scopes : Scopes} {name : String} {value : Value}
    (h : s.heap.scopes.assign s.scope name value = .ok scopes) : R .call s .ok (s.withScopes scopes)
  /-- What happens in a frame with a new scope is seen from outside once the frame is left, -/
  frame {l : Level} {s t : State} {o : Outcome} {heap : Heap} {kind : FrameKind} {scope : ScopeRef}
    (hopened : s.heap.scopes.Opened heap.scopes scope)
    (h : R l (State.enter { s with heap := heap } kind scope) o t) (ho : o ≠ .died) : R .call s o t.leave
  /-- or when everything ends. -/
  broken {l : Level} {s t : State} {heap : Heap} {kind : FrameKind} {scope : ScopeRef}
    (hopened : s.heap.scopes.Opened heap.scopes scope)
    (h : R l (State.enter { s with heap := heap } kind scope) .died t) : R .call s .died t
  /-- A context of its own has a new scope, too. -/
  fork {l : Level} {s t : State} {o : Outcome} {context : Context} {heap : Heap} {held : List Held}
    (hforks : s.Forks context heap) (h : R l { s with heap := heap, context := context, held := held } o t)
    : R .call s o { t with context := s.context, held := s.held }
  /-- A thread that breaks down ends alone. -/
  alone {s t : State} (h : R .call s .died { t with context := s.context, held := s.held })
    : R .call s .ok { t with context := s.context, held := s.held }

namespace Run

variable {α β : Type} {x : Run α} {s t : State} {o : Outcome}

def Gives (x : Run α) (s : State) (o : Outcome) (t : State) : Prop :=
  match o with
  | .ok => ∃ a, x s = .ok a t
  | .raised e => x s = .error (.raised e) t
  | .died => x s = .error .died t

theorem Gives.ok {a : α} (h : x s = .ok a t) : x.Gives s .ok t := ⟨a, h⟩

theorem Gives.congr {y : Run α} {u : State} (h : x.Gives s o t) (hxy : x s = y u) : y.Gives u o t := by
  unfold Gives at h ⊢
  rw [hxy] at h
  exact h

theorem Ends.gives (h : x.Ends s t) : ∃ o, x.Gives s o t := by
  rcases h with ⟨a, h⟩ | ⟨e, h⟩
  . exact ⟨.ok, a, h⟩
  . exact ⟨.raised e, h⟩

theorem gives_ok {a : α} {u : State} (h : x.Gives s o t) (hx : x s = .ok a u) : o = .ok ∧ t = u := by
  cases o <;> simp_all [Gives]

theorem gives_error {e : Error} {u : State} (h : x.Gives s o t) (hx : x s = .error (.raised e) u)
    : o = .raised e ∧ t = u := by
  cases o <;> simp_all [Gives]

theorem gives_died {u : State} (h : x.Gives s o t) (hx : x s = .error .died u) : o = .died ∧ t = u := by
  cases o <;> simp_all [Gives]

theorem not_gives_exhausted {u : State} (hx : x s = .error .exhausted u) : ¬x.Gives s o t := by
  cases o <;> simp_all [Gives]

theorem gives_bind {f : α → Run β} (h : (x >>= f).Gives s o t)
    : x.Gives s o t ∧ o ≠ .ok ∨ ∃ a u, x s = .ok a u ∧ (f a).Gives u o t := by
  cases hx : x s with
  | ok a u => exact .inr ⟨a, u, rfl, h.congr (bind_ok hx)⟩
  | error halt u =>
    have hbind : (x >>= f) s = .error halt u := bind_error hx
    left
    cases o <;> simp_all [Gives]

theorem gives_capture_bind {k : Except Error α → Run β} (h : (capture x >>= k).Gives s o t)
    : (∃ a u, x s = .ok a u ∧ (k (.ok a)).Gives u o t) ∨
        (∃ e u, x s = .error (.raised e) u ∧ (k (.error e)).Gives u o t) ∨
        o = .died ∧ x s = .error .died t := by
  cases hx : x s with
  | ok a u => exact .inl ⟨a, u, rfl, h.congr (bind_ok (capture_ok hx))⟩
  | error halt u =>
    right
    cases halt with
    | raised e => exact .inl ⟨e, u, rfl, h.congr (bind_ok (capture_raised hx))⟩
    | exhausted => exact absurd h (not_gives_exhausted (bind_error (capture_halted hx fun _ => nofun)))
    | died =>
      rcases gives_died h (bind_error (capture_halted hx fun _ => nofun)) with ⟨ho, ht⟩
      rw [ho, ht]
      exact .inr ⟨rfl, rfl⟩

theorem gives_lettingGo (h : (lettingGo x).Gives s o t)
    : ∃ u, x.Gives s o u ∧ t = { u with held := s.held } := by
  unfold Gives lettingGo at h
  unfold Gives
  cases hx : x s with
  | ok a u => cases o <;> simp_all
  | error halt u => cases o <;> simp_all

theorem gives_finishing {f : State → State} (h : (finishing f x).Gives s o t)
    : ∃ u, x.Gives s o u ∧ (o ≠ .died ∧ t = f u ∨ o = .died ∧ t = u) := by
  unfold Gives finishing at h
  unfold Gives
  cases hx : x s with
  | ok a u => cases o <;> simp_all
  | error halt u => cases halt <;> cases o <;> simp_all

theorem gives_importModule {m : Machine} {name : String} {forceReload : Bool} {s t : State} {o : Outcome}
    (h : (m.importModule name forceReload).Gives s o t)
    : (s.world.modules.get? name ≠ none ∧ o = .ok ∧ t = s) ∨
        (s.world.modules.get? name = none ∧ (m.loadModule name 0 >>= Machine.keepModule name).Gives s o t) ∨
        ∃ kept : Module, kept.modified ≠ 0 ∧ ∃ held,
          (m.loadModule name kept.modified >>= fun loaded =>
            if loaded.modified == kept.modified then pure kept.value else Machine.keepModule name loaded).Gives
            { s with held := held } o t := by
  cases hkept : s.world.modules.get? name with
  | none => exact .inr (.inl ⟨rfl, h.congr (Machine.importModule_none hkept forceReload)⟩)
  | some kept =>
    -- Only a module that can change is loaded again, and only if that is forced.
    by_cases hstays : forceReload = false ∨ kept.modified = 0
    . exact .inl ⟨nofun, gives_ok h (Machine.importModule_kept hkept hstays)⟩
    . rw [not_or, Bool.not_eq_false] at hstays
      rcases Machine.importModule_reload (m := m) hkept hstays.2 with ⟨held, hreload⟩
      rw [hstays.1] at h
      exact .inr (.inr ⟨kept, hstays.2, held, h.congr hreload⟩)

/-- Wherever a computation ends, that is related to where it started. -/
def Obeys (R : State → Outcome → State → Prop) (x : Run α) : Prop :=
  ∀ s o t, x.Gives s o t → R s o t

/-- The same of calls that were put off, which give the first error as a result and raise none. -/
def Releases (R : State → Outcome → State → Prop) (x : Run (Option Error)) : Prop :=
  ∀ s,
    match x s with
    | .ok first t => R s (.ofError? first) t
    | .error (.raised _) _ => False
    | .error .died t => R s .died t
    | .error .exhausted _ => True

theorem exhausted_obeys {R : State → Outcome → State → Prop} : (exhausted : Run α).Obeys R := by
  intro s o t h
  exact absurd h (not_gives_exhausted rfl)

end Run

/-- The callbacks of a machine keep to a conduct, each at its level. -/
structure Machine.Conducts (R : Level → State → Outcome → State → Prop) (m : Machine) : Prop where
  eval (e : Expr) : (m.eval e).Obeys (R .expr)
  exec (stmt : Stmt) : (m.exec stmt).Obeys (R .stmt)
  invoke (callee this : Value) (args : List Value) : (m.invoke callee this args).Obeys (R .call)
  release (raised : List Value) (calls : List Deferred) : (m.release raised calls).Releases (R .call)
  spawn (callee : Value) (args : List Value) : (m.spawn callee args).Obeys (R .call)
  native (call : HostCall) (this : Value) (args : List Value) : (m.native call this args).Obeys (R .call)
  importModule (name : String) (forceReload : Bool) : (m.importModule name forceReload).Obeys (R .call)

/-- The functions and the importer of a host keep to a conduct if what they call back into does. -/
structure Host.Conducts (R : Level → State → Outcome → State → Prop) (host : Host) : Prop where
  native {m : Machine} (hm : m.Conducts R) (call : HostCall) (this : Value) (args : List Value)
    : (host.native m call this args).Obeys (R .call)
  importer {m : Machine} (hm : m.Conducts R) {load : Machine → String → Int64 → Run (Option Module)}
    (h : host.importer = some load) (name : String) (modified : Int64)
    : (load m name modified).Obeys (R .call)

section Rules

variable {R : Level → State → Outcome → State → Prop} {m m' : Machine} {l : Level} {α β : Type}

theorem Run.obeys_of_ok {x : Run α} (h : ∀ s, ∃ a t, x s = .ok a t ∧ R l s .ok t) : x.Obeys (R l) := by
  intro s o t ht
  rcases h s with ⟨a, u, hx, hu⟩
  rcases gives_ok ht hx with ⟨ho, htu⟩
  rw [ho, htu]
  exact hu

variable (hR : Conduct R)
include hR

theorem Conduct.both {s t u : State} {first second : Option Error} (h : R l s (.ofError? first) t)
    (h' : R l t (.ofError? second) u)
    : R l s (.ofError? (first.or second)) u := by
  cases first with
  | none => exact hR.trans h h'
  | some e =>
    cases second with
    | none => exact hR.later h h'
    | some e' => exact hR.later h (hR.handled h')

theorem Conduct.ended {s t : State} {first : Option Error} (h : R l s (.ofError? first) t) : R l s .ok t := by
  cases first with
  | none => exact h
  | some e => exact hR.handled h

theorem Run.obeys_of_calm {x : Run α} (h : ∀ s, ∃ a t, x s = .ok a t ∧ s.Calm t) : x.Obeys (R l) := by
  apply obeys_of_ok
  intro s
  rcases h s with ⟨a, t, hx, ht⟩
  exact ⟨a, t, hx, hR.calm ht⟩

theorem Run.pure_obeys (a : α) : (Pure.pure a : Run α).Obeys (R l) := by
  apply obeys_of_calm hR
  intro s
  exact ⟨a, s, rfl, rfl, rfl, rfl, rfl⟩

theorem Run.raiseError_obeys {e : Error} (he : e.backtrace = none) : (Run.raiseError e : Run α).Obeys (R l) := by
  intro s o t h
  rcases gives_error h rfl with ⟨ho, ht⟩
  rw [ho, ht]
  exact hR.raise he

theorem Run.Obeys.bind {x : Run α} {f : α → Run β} (hx : x.Obeys (R l)) (hf : ∀ a, (f a).Obeys (R l))
    : (x >>= f).Obeys (R l) := by
  intro s o t h
  rcases gives_bind h with ⟨h, _⟩ | ⟨a, u, hu, h⟩
  . exact hx s o t h
  . exact hR.trans (hx s .ok u (.ok hu)) (hf a u o t h)

theorem Run.Obeys.ofCall {x : Run α} (h : x.Obeys (R .call)) : x.Obeys (R l) := by
  intro s o t ht
  exact hR.ofCall (h s o t ht)

theorem Run.Obeys.lettingGo {x : Run α} (hx : x.Obeys (R l)) : (Run.lettingGo x).Obeys (R l) := by
  intro s o t h
  rcases gives_lettingGo h with ⟨u, hu, ht⟩
  rw [ht]
  exact hR.calmed (hx s o u hu) ⟨rfl, rfl, rfl, rfl⟩

theorem Run.finishing_obeys {x : Run α} {f : State → State} {s s' t : State} {o : Outcome}
    (h : (Run.finishing f x).Gives s o t) (hx : ∀ u, x.Gives s o u → R l s' o u)
    (hf : ∀ u : State, u.Calm (f u))
    : R l s' o t := by
  rcases gives_finishing h with ⟨u, hu, ⟨_, ht⟩ | ⟨_, ht⟩⟩
  . rw [ht]
    exact hR.calmed (hx u hu) (hf u)
  . rw [ht]
    exact hx u hu

theorem Run.Obeys.capture_bind {x : Run α} {k : Except Error α → Run β} (hx : x.Obeys (R l))
    (hok : ∀ a, (k (.ok a)).Obeys (R l))
    (herror : ∀ e, k (.error e) = Run.raiseError e ∨ (k (.error e)).Obeys (R l))
    : (Run.capture x >>= k).Obeys (R l) := by
  intro s o t h
  rcases gives_capture_bind h with ⟨a, u, hu, h⟩ | ⟨e, u, hu, h⟩ | ⟨ho, h⟩
  . exact hR.trans (hx s .ok u (.ok hu)) (hok a u o t h)
  . rcases herror e with he | he
    -- An error that is raised again was raised before.
    . rw [he] at h
      rcases gives_error h rfl with ⟨ho, ht⟩
      rw [ho, ht]
      exact hx s (.raised e) u hu
    . exact hR.trans (hR.handled (hx s (.raised e) u hu)) (he u o t h)
  . rw [ho]
    exact hx s .died t h

theorem Run.Obeys.locating {x : Run α} (hx : x.Obeys (R l)) : (Run.locating x).Obeys (R l) := by
  intro s o t h
  rcases gives_capture_bind h with ⟨a, u, hu, h⟩ | ⟨e, u, hu, h⟩ | ⟨ho, h⟩
  . exact hR.trans (hx s .ok u (.ok hu)) (pure_obeys hR a u o t h)
  . rcases gives_error h rfl with ⟨ho, ht⟩
    rw [ho, ht]
    exact hR.located (hx s (.raised e) u hu)
  . rw [ho]
    exact hx s .died t h

theorem release_obeys (hm : m.Conducts R) {s u t : State} {r : Except Error α} {o : Outcome}
    {calls : List Deferred} (hr : R l s (.ofError? (Machine.failure r)) u)
    (h : (m.release (Machine.raisedValues r) calls >>= Machine.settle r).Gives u o t)
    : R l s o t := by
  have hrelease := hm.release (Machine.raisedValues r) calls u
  cases hv : m.release (Machine.raisedValues r) calls u with
  | ok deferred v =>
    rw [hv] at hrelease
    have h : (Machine.settle r deferred).Gives v o t := h.congr (Run.bind_ok hv)
    -- The body's own error counts, or else the first one of the calls that were put off in it.
    have hsettled : o = .ofError? ((Machine.failure r).or deferred) ∧ t = v := by
      cases r with
      | error e => exact Run.gives_error h rfl
      | ok a =>
        cases deferred with
        | none => exact Run.gives_ok h rfl
        | some e => exact Run.gives_error h rfl
    rw [hsettled.1, hsettled.2]
    exact hR.both hr (hR.ofCall hrelease)
  | error halt v =>
    rw [hv] at hrelease
    cases halt with
    | raised e => exact absurd hrelease not_false
    | exhausted => exact absurd h (Run.not_gives_exhausted (Run.bind_error hv))
    | died =>
      rcases Run.gives_died h (Run.bind_error hv) with ⟨ho, ht⟩
      rw [ho, ht]
      exact hR.trans (hR.ended hr) (hR.ofCall hrelease)

theorem withFrame_obeys (hm : m.Conducts R) {x : Run α} (hx : x.Obeys (R l)) {s t : State} {o : Outcome}
    {heap : Heap} {kind : FrameKind} {scope : ScopeRef} (hopened : s.heap.scopes.Opened heap.scopes scope)
    (h : (m.withFrame kind scope x).Gives { s with heap := heap } o t)
    : R .call s o t := by
  have h : (Run.capture x >>= fun r => Machine.leaveFrame >>= fun calls =>
      m.release (Machine.raisedValues r) calls >>= Machine.settle r).Gives
        (State.enter { s with heap := heap } kind scope) o t := h
  rcases Run.gives_capture_bind h with ⟨a, u, hu, h⟩ | ⟨e, u, hu, h⟩ | ⟨ho, h⟩
  . have hbody := hR.frame hopened (hx _ .ok u (.ok hu)) nofun
    exact release_obeys hR hm (r := .ok a) hbody h
  . have hbody := hR.frame hopened (hx _ (.raised e) u hu) nofun
    exact release_obeys hR hm (r := .error e) hbody h
  . rw [ho]
    exact hR.broken hopened (hx _ .died t h)

theorem withBlock_obeys (hm : m.Conducts R) {x : Run α} (hx : x.Obeys (R l))
    : (m.withBlock x).Obeys (R .call) := by
  intro s o t h
  have hmade := Scopes.made_add s.heap.scopes (some s.scope)
  exact withFrame_obeys hR hm hx hmade.opened h

theorem deeper_obeys {x : Run α} (hx : x.Obeys (R l)) : (Run.deeper x).Obeys (R l) := by
  intro s o t h
  have hdeeper : s.Calm (s.withDepth (s.context.depth + 1)) := ⟨rfl, rfl, rfl, rfl⟩
  refine Run.finishing_obeys hR (h.congr (Run.deeper_apply x s)) ?_ fun _ => ⟨rfl, rfl, rfl, rfl⟩
  intro u hu
  exact hR.trans (hR.calm hdeeper) (hx _ o u hu)

theorem checkDepth_obeys : Run.checkDepth.Obeys (R l) := by
  intro s o t h
  have hcheck := Run.checkDepth_apply s
  split at hcheck
  . rcases Run.gives_error h hcheck with ⟨ho, ht⟩
    rw [ho, ht]
    exact hR.raise rfl
  . rcases Run.gives_ok h hcheck with ⟨ho, ht⟩
    rw [ho, ht]
    exact hR.calm ⟨rfl, rfl, rfl, rfl⟩

theorem withCall_obeys (hm : m.Conducts R) {x : Run Unit} (hx : x.Obeys (R .stmt)) {s t : State} {o : Outcome}
    {heap : Heap} {name : String} {scope : ScopeRef} (hopened : s.heap.scopes.Opened heap.scopes scope)
    (h : (m.withCall name scope x).Gives { s with heap := heap } o t)
    : R .call s o t := by
  rcases Run.hold_apply s.context.retVal (State.withFlow { s with heap := heap } .normal) with ⟨held, hheld⟩
  let called : State := { s with
    context := { s.context with flow := .normal, retVal := .undefined }, held := held }
  have hcalled : s.Calm (called.withDepth (s.context.depth + 1)) := ⟨rfl, rfl, rfl, rfl⟩
  have hbody {o : Outcome} {u : State}
      (hu : (Run.deeper (m.withFrame (.function name) scope x)).Gives { called with heap := heap } o u)
      : R .call s o u := by
    refine Run.finishing_obeys hR (hu.congr (Run.deeper_apply _ _)) ?_ fun _ => ⟨rfl, rfl, rfl, rfl⟩
    intro v hv
    have hframe := withFrame_obeys hR hm hx (s := called.withDepth (s.context.depth + 1)) hopened hv
    exact hR.trans (hR.calm hcalled) hframe
  refine Run.finishing_obeys hR (h.congr (Machine.withCall_apply m name scope x _)) ?_ fun _ => ⟨rfl, rfl, rfl, rfl⟩
  intro u hu
  have hu : (Run.deeper (m.withFrame (.function name) scope x) >>= fun _ => Run.retVal).Gives
      { called with heap := heap } o u := hu.congr (Run.bind_ok hheld)
  -- Reading the value at the end leaves the state as the function left it.
  rcases Run.gives_bind hu with ⟨hu, _⟩ | ⟨_, v, hv, hu⟩
  . exact hbody hu
  . rcases Run.gives_ok hu rfl with ⟨ho, huv⟩
    rw [ho, huv]
    exact hbody (.ok hv)

theorem defineLocal_obeys (name : String) (value : Value) : (Run.defineLocal name value).Obeys (R .expr) := by
  intro s o t h
  have hdefine := Run.defineLocal_apply name value s
  split at hdefine
  . next scopes hscopes =>
    rcases Run.gives_ok h hdefine with ⟨ho, ht⟩
    rw [ho, ht, Scopes.eq_force_of_define hscopes]
    exact hR.force s name value
  . rcases Run.gives_error h hdefine with ⟨ho, ht⟩
    rw [ho, ht]
    exact hR.raise rfl

theorem assignVar_obeys (name : String) (value : Value) : (Run.assignVar name value).Obeys (R .call) := by
  intro s o t h
  have hassign := Run.assignVar_apply name value s
  split at hassign
  . next scopes hscopes =>
    rcases Run.gives_ok h hassign with ⟨ho, ht⟩
    rw [ho, ht]
    exact hR.assign hscopes
  . rcases Run.gives_error h hassign with ⟨ho, ht⟩
    rw [ho, ht]
    exact hR.raise rfl

theorem alloc_obeys {f : Heap → α × Heap} (hf : ∀ h, (f h).2.scopes = h.scopes) : (Run.alloc f).Obeys (R l) := by
  apply Run.obeys_of_calm hR
  intro s
  exact ⟨(f s.heap).1, { s with heap := (f s.heap).2 }, rfl, hf s.heap, rfl, rfl, rfl⟩

theorem modifyHeap_obeys {f : Heap → Heap} (hf : ∀ h, (f h).scopes = h.scopes) : (Run.modifyHeap f).Obeys (R l) :=
  alloc_obeys (f := fun h => ((), f h)) hR hf

theorem Parallel.obeys (hm : m.Conducts R) {x x' : Run α} (h : Parallel m m' l x x') : x.Obeys (R l) := by
  induction h with
  | pure a => exact Run.pure_obeys hR a
  | bind hx hf ihx ihf => exact ihx.bind hR ihf
  | read f =>
    apply Run.obeys_of_calm hR
    intro s
    exact ⟨f s, s, rfl, rfl, rfl, rfl, rfl⟩
  | raiseError e he => exact Run.raiseError_obeys hR he
  | exhausted => exact Run.exhausted_obeys
  | alloc f hf => exact alloc_obeys hR fun h => (hf h).scopes
  | declare name bases hx ihx =>
    refine Run.Obeys.bind hR (alloc_obeys hR fun _ => rfl) ?_
    intro type
    apply (ihx type).bind hR
    intro members
    refine Run.Obeys.bind hR (modifyHeap_obeys hR fun _ => rfl) ?_
    intro
    exact Run.pure_obeys hR type
  | modifyWorld f hf =>
    apply Run.obeys_of_calm hR
    intro s
    exact ⟨(), { s with world := f s.world }, rfl, rfl, (hf s.world).2.1, (hf s.world).2.2, rfl⟩
  | forceLocal hl name value =>
    apply Run.obeys_of_ok
    intro s
    exact ⟨(), _, rfl, hR.ofExpr hl (hR.force s name value)⟩
  | defineLocal hl name value =>
    intro s o t h
    exact hR.ofExpr hl (defineLocal_obeys hR name value s o t h)
  | assignVar name value => exact (assignVar_obeys hR name value).ofCall hR
  | keep held _ =>
    apply Run.obeys_of_calm hR
    intro s
    exact ⟨(), { s with held := held :: s.held }, rfl, rfl, rfl, rfl, rfl⟩
  | lettingGo hx ih => exact ih.lettingGo hR
  | locating hx ih => exact ih.locating hR
  | capture handles hx hok hpass hhandle hfatal ihx ihok ihhandle =>
    apply ihx.capture_bind hR ihok
    intro e
    cases he : handles e with
    | true => exact .inr (ihhandle e he)
    | false => exact .inl (hpass e he).1
  | withBlock hx ih => exact (withBlock_obeys hR hm ih).ofCall hR
  | function name scope hx hb ihb =>
    apply Run.Obeys.ofCall hR
    apply (checkDepth_obeys hR).bind hR
    intro _ s o t h
    rcases hx s with ⟨a, heap, hx, hopened, _⟩
    exact withCall_obeys hR hm (ihb a) hopened (h.congr (Run.bind_ok hx))
  | deeper hx hf ihx ihf =>
    apply Run.Obeys.ofCall hR
    apply (checkDepth_obeys hR).bind hR
    intro
    apply ihx.bind hR
    intro a
    exact deeper_obeys hR (ihf a)
  | invoke callee this args => exact (hm.invoke callee this args).ofCall hR
  | native call this args => exact (hm.native call this args).ofCall hR
  | importModule name forceReload => exact (hm.importModule name forceReload).ofCall hR
  | spawn callee args => exact (hm.spawn callee args).ofCall hR
  | eval hl e =>
    intro s o t h
    exact hR.ofExpr hl (hm.eval e s o t h)
  | addBlockDefer hl callee args isOptional =>
    apply Run.obeys_of_calm hR
    intro s
    exact ⟨(), s.withContext _, rfl, rfl, rfl, rfl, rfl⟩
  | exec stmt => exact hm.exec stmt
  | addDefer callee args =>
    apply Run.obeys_of_calm hR
    intro s
    exact ⟨(), s.withContext _, rfl, rfl, rfl, rfl, s.context.stack.outline_addDefer _⟩
  | setFlow flow =>
    apply Run.obeys_of_calm hR
    intro s
    exact ⟨(), s.withFlow flow, rfl, rfl, rfl, rfl, rfl⟩
  | setRetVal value =>
    apply Run.obeys_of_calm hR
    intro s
    exact ⟨(), s.withRetVal value, rfl, rfl, rfl, rfl, rfl⟩
  | setPosition pos =>
    apply Run.obeys_of_calm hR
    intro s
    exact ⟨(), s.withContext _, rfl, rfl, rfl, rfl, rfl⟩

theorem Parallel.obeysAlone (hm : m.Conducts R) {x : Run α} (h : Parallel m m l x x) : x.Obeys (R l) :=
  h.obeys hR hm

theorem execBlock_obeys (hm : m.Conducts R) (stmts : List Stmt) : (m.execBlock stmts).Obeys (R .call) :=
  withBlock_obeys hR hm (Parallel.obeysAlone hR hm (.execAll stmts))

theorem handleWith_obeys (hm : m.Conducts R) (name : String) (e : Error) (body : List Stmt)
    : (m.handleWith name e body).Obeys (R .call) := by
  unfold Machine.handleWith
  apply (Parallel.obeysAlone hR hm (.holdAll _)).bind hR
  intro
  apply (Parallel.obeysAlone hR hm (.exceptionValue e)).bind hR
  intro exception
  apply withBlock_obeys hR hm (l := .stmt)
  apply Parallel.obeysAlone hR hm
  apply Parallel.bind (.forceLocal Level.stmt_ne_call name exception)
  intro
  apply Parallel.execAll

theorem execGuarded_obeys (hm : m.Conducts R) {body : Run Unit} (hb : body.Obeys (R .call))
    (handler : Option Handler)
    : (m.execGuarded body handler).Obeys (R .call) := by
  unfold Machine.execGuarded
  apply hb.capture_bind hR
  . intro a
    exact Run.pure_obeys hR a
  . intro e
    cases handler with
    | none => exact .inl rfl
    | some handler =>
      cases handler with
      | mk name stmts =>
        dsimp only
        split
        . exact .inl rfl
        . exact .inr (handleWith_obeys hR hm name e stmts)

theorem cleansUp_obeys (hm : m.Conducts R) (cleanup : List Stmt) (raised : List Value)
    : (m.cleansUp cleanup raised).Obeys (R .call) := by
  have hset {α : Type} {x : Run α} (hx : ∀ s, ∃ a t, x s = .ok a t ∧ s.Calm t) : x.Obeys (R .call) :=
    Run.obeys_of_calm hR hx
  unfold Machine.cleansUp
  apply (hset fun s => ⟨s.context.retVal, s, rfl, rfl, rfl, rfl, rfl⟩).bind hR
  intro retVal
  apply (hset fun s => ⟨s.context.flow, s.withFlow .normal, rfl, rfl, rfl, rfl, rfl⟩).bind hR
  intro flow
  apply (Parallel.obeysAlone hR hm (.hold retVal)).bind hR
  intro
  apply (Parallel.obeysAlone hR hm (.holdAll raised)).bind hR
  intro
  apply (execBlock_obeys hR hm cleanup).bind hR
  intro
  apply (hset fun s => ⟨s.context.flow, s, rfl, rfl, rfl, rfl, rfl⟩).bind hR
  intro
  split
  . apply (hset fun s => ⟨(), s.withFlow flow, rfl, rfl, rfl, rfl, rfl⟩).bind hR
    intro
    apply (hset fun s => ⟨(), s.withRetVal retVal, rfl, rfl, rfl, rfl, rfl⟩).bind hR
    intro
    exact Run.pure_obeys hR true
  . exact Run.pure_obeys hR false

theorem cleanUp_obeys (hm : m.Conducts R) (cleanup : List Stmt) {s u t : State} {r : Except Error Unit}
    {o : Outcome} (hr : R .call s (.ofError? (Machine.failure r)) u) (h : (m.cleanUp cleanup r).Gives u o t)
    : R .call s o t := by
  rw [Machine.cleanUp_eq] at h
  rcases Run.gives_bind h with ⟨h, _⟩ | ⟨again, v, hv, h⟩
  . exact hR.trans (hR.ended hr) (cleansUp_obeys hR hm cleanup _ u o t h)
  . have hcleanup := cleansUp_obeys hR hm cleanup _ u .ok v (.ok hv)
    -- If the cleanup leaves a signal then the error of the body is forgotten.
    cases again with
    | false =>
      rcases Run.gives_ok h rfl with ⟨ho, ht⟩
      rw [ho, ht]
      exact hR.trans (hR.ended hr) hcleanup
    | true =>
      have hv : o = .ofError? ((Machine.failure r).or none) ∧ t = v := by
        cases r with
        | ok a => exact Run.gives_ok h rfl
        | error e => exact Run.gives_error h rfl
      rw [hv.1, hv.2]
      exact hR.both hr hcleanup

theorem execAttempt_obeys (hm : m.Conducts R) (body : List Stmt) (handler : Option Handler)
    (cleanup : Option (List Stmt))
    : (m.execAttempt body handler cleanup).Obeys (R .call) := by
  have hguarded : (Run.lettingGo (m.execGuarded (m.execBlock body) handler)).Obeys (R .call) :=
    (execGuarded_obeys hR hm (execBlock_obeys hR hm body) handler).lettingGo hR
  cases cleanup with
  | none =>
    apply hguarded.capture_bind hR
    . intro a
      exact Run.pure_obeys hR a
    . intro e
      exact .inl rfl
  | some cleanup =>
    intro s o t h
    rcases Run.gives_capture_bind h with ⟨a, u, hu, h⟩ | ⟨e, u, hu, h⟩ | ⟨ho, h⟩
    . exact cleanUp_obeys hR hm cleanup (r := .ok a) (hguarded s .ok u (.ok hu)) h
    . exact cleanUp_obeys hR hm cleanup (r := .error e) (hguarded s (.raised e) u hu) h
    . rw [ho]
      exact hguarded s .died t h

theorem execStmt_obeys (hm : m.Conducts R) (stmt : Stmt) : (m.execStmt stmt).Obeys (R .stmt) := by
  cases hcleanup : stmt.hasCleanup with
  | false => exact (Parallel.execStmt stmt hcleanup).obeysAlone hR hm
  | true =>
    rcases Stmt.eq_of_hasCleanup hcleanup with ⟨pos, body, handler, cleanup, hstmt⟩
    rw [hstmt]
    apply (Parallel.obeysAlone hR hm (.setPosition pos)).bind hR
    intro
    exact ((execAttempt_obeys hR hm body handler (some cleanup)).ofCall hR).locating hR

theorem makeCall_obeys (hm : m.Conducts R) (call : Deferred) (calls : List Deferred)
    : (m.makeCall call calls).Obeys (R .call) := by
  apply Parallel.obeysAlone hR hm
  apply Parallel.lettingGo
  apply Parallel.bind (.hold call.callee)
  intro
  apply Parallel.bind (.keep (.calls calls) rfl)
  intro
  apply Parallel.invoke

theorem runDefersFrom_obeys (hm : m.Conducts R) (calls : List Deferred) {s u : State} {first : Option Error}
    (hfirst : R .call s (.ofError? first) u)
    : match Machine.runDefers.go m first calls u with
      | .ok final t => R .call s (.ofError? final) t
      | .error .died t => R .call s .died t
      | .error _ _ => True := by
  induction calls generalizing first u with
  | nil => exact hfirst
  | cons call calls ih =>
    cases hcallable : u.heap.isCallable call.callee with
    | true =>
      have hcall := makeCall_obeys hR hm call calls
      rw [Machine.runDefersFrom_call hcallable]
      cases hr : m.makeCall call calls u with
      | ok a v =>
        have hflow : v.Calm (v.withFlow .normal) := ⟨rfl, rfl, rfl, rfl⟩
        rw [Run.bind_ok (Run.capture_ok hr)]
        exact ih (hR.calmed (hR.both hfirst (hcall u .ok v (.ok hr))) hflow)
      | error halt v =>
        cases halt with
        | raised e =>
          have hflow : v.Calm (v.withFlow .normal) := ⟨rfl, rfl, rfl, rfl⟩
          have hraised : R .call u (.ofError? (some e)) v := hcall u (.raised e) v hr
          rw [Run.bind_ok (Run.capture_raised hr)]
          exact ih (hR.calmed (hR.both hfirst hraised) hflow)
        | exhausted =>
          rw [Run.bind_error (Run.capture_halted hr fun _ => nofun)]
          trivial
        | died =>
          rw [Run.bind_error (Run.capture_halted hr fun _ => nofun)]
          exact hR.trans (hR.ended hfirst) (hcall u .died v hr)
    | false =>
      by_cases hskip : call.isOptional || first.isSome
      . rw [Machine.runDefersFrom_skip hcallable hskip]
        exact ih hfirst
      . rw [Machine.runDefersFrom_fault hcallable hskip]
        have hnone : first = none := by
          cases first with
          | none => rfl
          | some e => simp at hskip
        rw [hnone] at hfirst
        have hfault : R .call u (.ofError? (some (u.located (.ofCause .deferNotCallable)))) u :=
          hR.located (hR.raise rfl)
        exact ih (hR.trans hfirst hfault)

theorem runDefers_obeys (hm : m.Conducts R) (raised : List Value) (calls : List Deferred)
    : (m.runDefers raised calls).Releases (R .call) := by
  intro s
  cases calls with
  | nil => exact hR.calm ⟨rfl, rfl, rfl, rfl⟩
  | cons call calls =>
    rcases Machine.runDefers_cons raised call calls s with ⟨held, hruns⟩
    have hstart : R .call s (.ofError? none) { s.withFlow .normal with held := held } :=
      hR.calm ⟨rfl, rfl, rfl, rfl⟩
    have hgo := runDefersFrom_obeys hR hm (call :: calls) hstart
    rw [hruns m]
    cases hr : Machine.runDefers.go m none (call :: calls) { s.withFlow .normal with held := held } with
    | ok first t =>
      rw [hr] at hgo
      exact hR.calmed hgo ⟨rfl, rfl, rfl, rfl⟩
    | error halt t =>
      rw [hr] at hgo
      cases halt with
      | raised e => exact Machine.runDefersFrom_ne_raised _ _ _ _ _ _ hr
      | exhausted => trivial
      | died => exact hR.calmed hgo ⟨rfl, rfl, rfl, rfl⟩

theorem runThread_obeys (hm : m.Conducts R) (callee : Value) (args : List Value)
    : (m.runThread callee args).Obeys (R .call) := by
  intro s o t h
  rcases Machine.runThread_apply callee args s with ⟨context, heap, hforks, happly⟩
  let start : State := { s with heap := heap, context := context, held := .context s.context :: s.held }
  have happly := happly m
  have hcall {o : Outcome} {u : State} (hu : (Run.locating (m.invoke callee .undefined args)).Gives start o u)
      : R .call s o { u with context := s.context, held := s.held } :=
    hR.fork hforks (((hm.invoke callee .undefined args).locating hR) start o u hu)
  cases hr : Run.locating (m.invoke callee .undefined args) start with
  | ok a u =>
    rw [Run.capture_ok hr] at happly
    rcases Run.gives_ok h happly with ⟨ho, ht⟩
    rw [ho, ht]
    exact hcall (.ok hr)
  | error halt u =>
    cases halt with
    | raised e =>
      rw [Run.capture_raised hr] at happly
      rcases Run.gives_ok h happly with ⟨ho, ht⟩
      rw [ho, ht]
      exact hR.handled (hcall (o := .raised e) hr)
    | exhausted =>
      rw [Run.capture_halted hr fun _ => nofun] at happly
      exact absurd h (Run.not_gives_exhausted happly)
    | died =>
      rw [Run.capture_halted hr fun _ => nofun] at happly
      rcases Run.gives_ok h happly with ⟨ho, ht⟩
      rw [ho, ht]
      exact hR.alone (hcall (o := .died) hr)

theorem forked_obeys {x : Run α} (hx : x.Obeys (R l)) : (Run.forked x).Obeys (R .call) := by
  intro s o t h
  rcases Machine.forked_apply s with ⟨context, heap, hforks, happly⟩
  let start : State := { s with heap := heap, context := context, held := .context s.context :: s.held }
  have hends {o : Outcome} {u : State} (hu : x.Gives start o u)
      : R .call s o { u with context := s.context, held := s.held } :=
    hR.fork hforks (hx start o u hu)
  have happly := happly x
  split at happly
  . next a u hu =>
    rcases Run.gives_ok h happly with ⟨ho, ht⟩
    rw [ho, ht]
    exact hends (.ok hu)
  . next halt u hu =>
    cases halt with
    | raised e =>
      rcases Run.gives_error h happly with ⟨ho, ht⟩
      rw [ho, ht]
      exact hends (o := .raised e) hu
    | exhausted => exact absurd h (Run.not_gives_exhausted happly)
    | died =>
      rcases Run.gives_died h happly with ⟨ho, ht⟩
      rw [ho, ht]
      exact hends (o := .died) hu

theorem evalBlock_obeys (hm : m.Conducts R) (stmts : List Stmt) : (m.evalBlock stmts).Obeys (R .stmt) := by
  unfold Machine.evalBlock
  apply (Parallel.obeysAlone hR hm (.execAll stmts)).bind hR
  intro
  apply (Parallel.obeysAlone hR hm .finishFlow).bind hR
  intro
  exact Parallel.obeysAlone hR hm .retVal

theorem runModule_obeys (hm : m.Conducts R) (stmts : List Stmt) : (m.runModule stmts).Obeys (R .stmt) := by
  have hbody : (do m.execAll stmts; Run.finishFlow : Run Unit).Obeys (R .stmt) := by
    apply (Parallel.obeysAlone hR hm (.execAll stmts)).bind hR
    intro
    exact Parallel.obeysAlone hR hm .finishFlow
  have hrest {r : Except Error Unit} {s u t : State} {o : Outcome}
      (hr : R .stmt s (.ofError? (Machine.failure r)) u)
      (h : (do
        let deferred ← m.runRootDefers (Machine.raisedValues r)
        Machine.settle r deferred
        let exports ← Run.exports
        Run.setRetVal (.object exports)
        return .object exports : Run Value).Gives u o t)
      : R .stmt s o t := by
    have htaken : u.Calm u.takeRoot := ⟨rfl, rfl, rfl, u.context.stack.outline_takeRootDefers⟩
    have h : (m.release (Machine.raisedValues r) u.context.stack.takeRootDefers.1 >>= Machine.settle r >>=
        fun _ => do
          let exports ← Run.exports
          Run.setRetVal (.object exports)
          return Value.object exports).Gives u.takeRoot o t := by
      rw [bind_assoc]
      exact h
    rcases Run.gives_bind h with ⟨h, _⟩ | ⟨_, v, hv, h⟩
    . exact release_obeys hR hm (hR.calmed hr htaken) h
    . have hv := release_obeys hR hm (hR.calmed hr htaken) (.ok hv)
      rcases Run.gives_ok h rfl with ⟨ho, ht⟩
      rw [ho, ht]
      exact hR.calmed hv ⟨rfl, rfl, rfl, rfl⟩
  intro s o t h
  rcases Run.gives_capture_bind h with ⟨a, u, hu, h⟩ | ⟨e, u, hu, h⟩ | ⟨ho, h⟩
  . exact hrest (r := .ok a) (hbody s .ok u (.ok hu)) h
  . exact hrest (r := .error e) (hbody s (.raised e) u hu) h
  . rw [ho]
    exact hbody s .died t h

end Rules

section Machine

variable {R : Level → State → Outcome → State → Prop} {host : Host} {m : Machine}

theorem loadModule_obeys_of_importer (hR : Conduct R)
    (himporter : ∀ load, m.importer = some load → ∀ name modified, (load name modified).Obeys (R .call))
    (name : String) (modified : Int64)
    : (m.loadModule name modified).Obeys (R .call) := by
  unfold Machine.loadModule
  cases h : m.importer with
  | none => exact Run.raiseError_obeys hR rfl
  | some load =>
    apply (himporter load h name modified).bind hR
    intro found
    cases found with
    | none => exact Run.raiseError_obeys hR rfl
    | some loaded => exact Run.pure_obeys hR loaded

theorem importer_obeys (hhost : host.Conducts R) (fuel : Nat) (hm : m.Conducts R)
    (load : String → Int64 → Run (Option Module)) (hload : (host.above fuel m).importer = some load) (name : String)
    (modified : Int64)
    : (load name modified).Obeys (R .call) := by
  unfold Host.above at hload
  cases himporter : host.importer with
  | none =>
    rw [himporter] at hload
    cases hload
  | some given =>
    rw [himporter] at hload
    injection hload with hload
    rw [← hload]
    exact hhost.importer hm himporter name modified

theorem loadModule_obeys (hR : Conduct R) (hhost : host.Conducts R) (fuel : Nat) (hm : m.Conducts R) (name : String)
    (modified : Int64)
    : ((host.above fuel m).loadModule name modified).Obeys (R .call) :=
  loadModule_obeys_of_importer hR (importer_obeys hhost fuel hm) name modified

theorem spent_conducts (hR : Conduct R) : Machine.spent.Conducts R where
  eval _ := Run.exhausted_obeys
  exec _ := Run.exhausted_obeys
  invoke _ _ _ := Run.exhausted_obeys
  release _ _ _ := trivial
  spawn _ _ := Run.exhausted_obeys
  native _ _ _ := Run.exhausted_obeys
  importModule name forceReload := by
    intro s o t h
    rcases Run.gives_importModule h with ⟨_, ho, ht⟩ | ⟨_, h⟩ | ⟨_, _, _, h⟩
    . rw [ho, ht]
      exact hR.calm ⟨rfl, rfl, rfl, rfl⟩
    . exact absurd h (Run.not_gives_exhausted rfl)
    . exact absurd h (Run.not_gives_exhausted rfl)

theorem above_conducts (hR : Conduct R) (hhost : host.Conducts R) (fuel : Nat) (hm : m.Conducts R)
    (himport : ∀ name forceReload, ((host.above fuel m).importModule name forceReload).Obeys (R .call))
    : (host.above fuel m).Conducts R where
  eval e := by
    rw [above_eval]
    exact (Parallel.obeysAlone hR hm (.evalExpr Level.expr_ne_call e)).lettingGo hR
  exec stmt := by
    rw [above_exec]
    exact (execStmt_obeys hR hm stmt).lettingGo hR
  invoke callee this args := by
    rw [above_invoke]
    exact (Parallel.obeysAlone hR hm (.invokeWith callee this args)).lettingGo hR
  release raised calls := runDefers_obeys hR hm raised calls
  spawn callee args := runThread_obeys hR hm callee args
  native call this args := hhost.native hm call this args
  importModule := himport

/-- An import keeps to a conduct that is not about the modules, if loading a module does. -/
theorem importModule_obeys_of_load (hR : Conduct R) (hmodules : ∀ s modules, R .call s .ok (s.withModules modules))
    (hload : ∀ name modified, (m.loadModule name modified).Obeys (R .call)) (name : String) (forceReload : Bool)
    : (m.importModule name forceReload).Obeys (R .call) := by
  refine Machine.importModule_steps m m (P := fun x _ => x.Obeys (R .call)) ?_ ?_ hload name forceReload
  . intro _ x hx
    apply Run.obeys_of_ok
    intro s
    rcases hx s with ⟨a, modules, held, h, _⟩
    exact ⟨a, _, h, hR.calmed (hmodules s modules) ⟨rfl, rfl, rfl, rfl⟩⟩
  . intro _ _ x _ f _ hx hf
    exact hx.bind hR hf

theorem importModule_obeys (hR : Conduct R) (hhost : host.Conducts R)
    (hmodules : ∀ s modules, R .call s .ok (s.withModules modules)) (fuel : Nat) (hm : m.Conducts R)
    (name : String) (forceReload : Bool)
    : ((host.above fuel m).importModule name forceReload).Obeys (R .call) :=
  importModule_obeys_of_load hR hmodules (loadModule_obeys hR hhost fuel hm) name forceReload

/-- Every evaluation keeps to a conduct that the host and the imports keep to. -/
theorem machine_conducts (hR : Conduct R) (hhost : host.Conducts R)
    (himport : ∀ (m : Machine) (fuel : Nat), m.Conducts R →
      ∀ name forceReload, ((host.above fuel m).importModule name forceReload).Obeys (R .call))
    (n : Nat)
    : (host.machine n).Conducts R := by
  induction n with
  | zero => exact spent_conducts hR
  | succ n ih => exact above_conducts hR hhost n ih (himport _ n ih)

theorem scripted_conducts (hR : Conduct R) {modules : String → Option (List Stmt)}
    : (Host.scripted modules).Conducts R := by
  constructor
  case native =>
    intro m hm call this args
    cases args with
    | nil => exact Run.pure_obeys hR this
    | cons callee args => exact hm.invoke callee this args
  case importer =>
    intro m hm load h name modified
    injection h with h
    rw [← h]
    dsimp only
    split
    . exact Run.pure_obeys hR none
    . apply (forked_obeys hR (runModule_obeys hR hm _)).bind hR
      intro value
      exact Run.pure_obeys hR _

end Machine

end ScriptEngine
