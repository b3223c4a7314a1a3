import ScriptEngine.Engine.Setup
import ScriptEngine.Proofs.Deferred

/-!
This module contains what the limit on active calls means for the calls that are put off until a frame
ends. A function counts as active until its frame is left, and so it does while these calls have their
turns. They start if one more call may be active then, and are refused if the function runs at the limit.
-/

namespace ScriptEngine

/-- Whether a value is a function, maybe bound to a receiver, so that a call runs a body at once. -/
def Value.isFunction : Value → Bool
  | .func _ | .native _ => true
  | .bound _ _ callee => callee.isFunction
  | _ => false

namespace State

/-- As many calls are active as there may be. -/
def AtLimit (s : State) : Prop := s.world.settings.maxDepth ≤ s.context.depth

/-- The error of a call that is one too many. -/
def refusal (s : State) : Error := .ofCause (.tooManyCalls s.world.settings.maxDepth)

end State

/-- A call that was put off, the calls after it, and the state in which it has its turn. -/
structure Turn where
  call : Deferred
  later : List Deferred
  state : State

namespace Machine

/-- Calls a value, however many calls are active. -/
def enter (m : Machine) (runNative : Native → Value → List Value → Run Value) (callee this : Value)
    (args : List Value) : Run Value :=
  match callee with
  | .func ref => do
    let call ← Run.openCall ref this args
    m.withCall call.1.displayName call.2 do
      m.execAll call.1.body
      Run.finishFlow
  | .native ref => do
    let native ← Run.openNative ref this args
    Run.deeper (runNative native this args)
  | .bound _ receiver callee => m.enter runNative callee receiver args
  | other => m.invokeWith runNative other this args

/-- The turns of calls that were put off. There are no more once a call gives up. -/
def turns (m : Machine) : List Deferred → State → List Turn
  | [], _ => []
  | call :: calls, s =>
    ⟨call, calls, s⟩ ::
      if s.heap.isCallable call.callee then
        match Run.capture (m.makeCall call calls) s with
        | .ok _ t => m.turns calls (t.withFlow .normal)
        | .error _ _ => []
      else
        m.turns calls s

end Machine

/-- Makes a call that was put off, however many calls are active. -/
def Host.startCall (host : Host) (n : Nat) (call : Deferred) (later : List Deferred) : Run Value :=
  Run.lettingGo do
    Run.hold call.callee
    Run.keep (.calls later)
    Run.lettingGo ((host.machine n).enter (Library.runRoutine (host.machine n)) call.callee .undefined call.args)

section Limit

variable {m : Machine} {runNative : Native → Value → List Value → Run Value} {callee : Value} {s : State}

theorem checkDepth_atLimit (hlimit : s.AtLimit) : Run.checkDepth s = .error (.raised s.refusal) s :=
  (Run.checkDepth_apply s).trans (if_pos hlimit)

theorem checkDepth_below (hlimit : ¬s.AtLimit) : Run.checkDepth s = .ok () s :=
  (Run.checkDepth_apply s).trans (if_neg hlimit)

theorem invokeWith_function (hfunction : callee.isFunction = true) (this : Value) (args : List Value)
    : m.invokeWith runNative callee this args = (do Run.checkDepth; m.enter runNative callee this args) := by
  induction callee generalizing this with
  | func ref => rfl
  | native ref => rfl
  | bound tag receiver callee _ ih => exact ih hfunction receiver
  | _ => cases hfunction

theorem enter_other (hfunction : callee.isFunction = false) (this : Value) (args : List Value)
    : m.enter runNative callee this args = m.invokeWith runNative callee this args := by
  induction callee generalizing this with
  | func ref => cases hfunction
  | native ref => cases hfunction
  | bound tag receiver callee _ ih => exact ih hfunction receiver
  | _ => rfl

theorem invokeWith_refused (hfunction : callee.isFunction = true) (hlimit : s.AtLimit) (this : Value)
    (args : List Value)
    : m.invokeWith runNative callee this args s = .error (.raised s.refusal) s := by
  rw [invokeWith_function hfunction, Run.bind_error (checkDepth_atLimit hlimit)]

theorem invokeWith_entered (hroom : callee.isFunction = true → ¬s.AtLimit) (this : Value) (args : List Value)
    : m.invokeWith runNative callee this args s = m.enter runNative callee this args s := by
  cases hfunction : callee.isFunction with
  | true => rw [invokeWith_function hfunction, Run.bind_ok (checkDepth_below (hroom hfunction))]
  | false => rw [enter_other hfunction]

theorem isCallable_of_isFunction (hfunction : callee.isFunction = true) (h : Heap)
    : h.isCallable callee = true := by
  cases callee with
  | func | native | bound => rfl
  | _ => cases hfunction

/-- What is held on to during a call that was put off. -/
theorem holding_apply (call : Deferred) (later : List Deferred) (s : State)
    : ∃ held, ∀ invoke : Run Value, Run.lettingGo (do
        Run.hold call.callee
        Run.keep (.calls later)
        invoke) s = Run.lettingGo (fun _ => invoke { s with held := held }) s := by
  rcases Run.hold_apply call.callee s with ⟨held, hheld⟩
  refine ⟨.calls later :: held, ?_⟩
  intro invoke
  unfold Run.lettingGo
  rw [Run.bind_ok hheld]
  rfl

variable {host : Host} {n : Nat} {call : Deferred}

/-- A call that is one too many is refused. -/
theorem invoke_refused (hfunction : callee.isFunction = true) (hlimit : s.AtLimit) (this : Value)
    (args : List Value)
    : (host.machine (n + 1)).invoke callee this args s = .error (.raised s.refusal) s := by
  show (host.above n (host.machine n)).invoke callee this args s = _
  rw [above_invoke]
  unfold Run.lettingGo
  rw [invokeWith_refused hfunction hlimit]

/-- At the limit a call that was put off gives an error, and nothing of it happens. -/
theorem makeCall_refused (hfunction : call.callee.isFunction = true) (hlimit : s.AtLimit) (later : List Deferred)
    : (host.machine (n + 1)).makeCall call later s = .error (.raised s.refusal) s := by
  rcases holding_apply call later s with ⟨held, hholding⟩
  let t : State := { s with held := held }
  have hlimit : t.AtLimit := hlimit
  have hinvoke : (host.machine (n + 1)).invoke call.callee .undefined call.args t = .error (.raised t.refusal) t :=
    invoke_refused hfunction hlimit _ _
  unfold Machine.makeCall
  rw [hholding]
  unfold Run.lettingGo
  rw [hinvoke]
  rfl

/-- Below the limit it starts, and so does one that is not a function, as a type that makes an instance. -/
theorem makeCall_started (hroom : call.callee.isFunction = true → ¬s.AtLimit) (later : List Deferred)
    : (host.machine (n + 1)).makeCall call later s = host.startCall n call later s := by
  rcases holding_apply call later s with ⟨held, hholding⟩
  have hroom : call.callee.isFunction = true → ¬({ s with held := held } : State).AtLimit := hroom
  have hinvoke : (host.machine (n + 1)).invoke call.callee .undefined call.args { s with held := held } =
      Run.lettingGo ((host.machine n).enter (Library.runRoutine (host.machine n)) call.callee .undefined call.args)
        { s with held := held } := by
    show (host.above n (host.machine n)).invoke _ _ _ _ = _
    rw [above_invoke]
    unfold Run.lettingGo
    rw [invokeWith_entered hroom]
  unfold Machine.makeCall Host.startCall
  rw [hholding, hholding]
  unfold Run.lettingGo at hinvoke ⊢
  rw [hinvoke]

end Limit

section Turns

variable {m : Machine} {calls : List Deferred} {s t : State} {outcomes : List (Option Error)}

/-- If all calls were handled then all of them had their turns, in order. -/
theorem Handled.turns (h : Handled m calls s outcomes t) : (m.turns calls s).map Turn.call = calls := by
  induction h with
  | done s => rfl
  | called hcallable _ hcall _ ih =>
    rw [Machine.turns, if_pos hcallable, hcall, List.map_cons, ih]
  | skipped hcallable _ _ ih =>
    rw [Machine.turns, if_neg (by simp [hcallable]), List.map_cons, ih]
  | refused hcallable _ _ ih =>
    rw [Machine.turns, if_neg (by simp [hcallable]), List.map_cons, ih]

theorem Run.Follows.steady {α : Type} {x : Run α} (hx : Run.Follows True False 0 x x)
    (hs : s.context.depth ≤ s.world.settings.maxDepth)
    : Steady s (x s) := by
  rcases hx s (fun _ => hs) with ⟨_, hsteady⟩ | ⟨hfalse, _⟩
  . exact hsteady trivial
  . exact hfalse.elim

/-- All calls have their turns at the depth at which the frame was left. -/
theorem turns_depth (hm : m.Follows True False m) (hs : s.context.depth ≤ s.world.settings.maxDepth)
    : ∀ turn ∈ m.turns calls s,
        turn.state.context.depth = s.context.depth ∧ turn.state.world.settings = s.world.settings := by
  induction calls generalizing s with
  | nil => exact List.forall_mem_nil _
  | cons call calls ih =>
    rw [Machine.turns, List.forall_mem_cons]
    refine ⟨⟨rfl, rfl⟩, ?_⟩
    split
    . have hsteady := (makeCall_follows hm call calls).capture.steady hs
      split
      . next r t hcall =>
        rw [hcall] at hsteady
        rcases hsteady with ⟨hsettings, hdepth⟩
        have ht : (t.withFlow .normal).context.depth ≤ (t.withFlow .normal).world.settings.maxDepth := by
          show t.context.depth ≤ t.world.settings.maxDepth
          rw [hdepth, hsettings]
          exact hs
        intro turn hturn
        rcases ih ht turn hturn with ⟨hdepth', hsettings'⟩
        exact ⟨hdepth'.trans hdepth, hsettings'.trans hsettings⟩
      . exact List.forall_mem_nil _
    . exact ih hs

end Turns

section Frames

variable {s : State}

/-- The way back from the frame of a function: with the signal, the value and the calls of the caller. -/
def State.returned (t s : State) : State := (t.withDepth s.context.depth).resume s.context

theorem finishing_retVal {x : Run Unit} (s : State)
    : (Run.finishing State.shallower x >>= fun _ => Run.retVal) s =
        Run.finishing State.shallower (x >>= fun _ => Run.retVal) s := by
  rw [Run.bind_apply]
  unfold Run.finishing
  rw [Run.bind_apply]
  cases x s with
  | ok a t => rfl
  | error halt t => cases halt <;> rfl

theorem finishing_finishing {α : Type} (f g : State → State) (x : Run α) (s : State)
    : Run.finishing f (Run.finishing g x) s = Run.finishing (fun t => f (g t)) x s := by
  unfold Run.finishing
  cases x s with
  | ok a t => rfl
  | error halt t => cases halt <;> rfl

theorem finishing_congr {α : Type} {f : State → State} {x y : Run α} {s t : State} (h : x s = y t)
    : Run.finishing f x s = Run.finishing f y t := by
  unfold Run.finishing
  rw [h]

/-- What is done at the end matters only in the states in which a computation ends. -/
theorem finishing_agree {α : Type} {f g : State → State} {x : Run α} {s : State}
    (h : ∀ t, x.Ends s t → f t = g t)
    : Run.finishing f x s = Run.finishing g x s := by
  unfold Run.finishing
  cases hx : x s with
  | ok a t =>
    dsimp only
    rw [h t (.ok hx)]
  | error halt t =>
    cases halt with
    | raised e =>
      dsimp only
      rw [h t (.raised hx)]
    | exhausted => rfl
    | died => rfl

/-- The body of a function ends with as many active calls as it was started with. -/
theorem function_depth {m : Machine} (hm : m.Follows True False m) {code : FuncDef} {scope : ScopeRef}
    {start t : State} (hstart : start.context.depth ≤ start.world.settings.maxDepth)
    (ht : Run.Ends (do
      m.withFrame (.function code.displayName) scope do
        m.execAll code.body
        Run.finishFlow
      Run.retVal) start t)
    : t.context.depth = start.context.depth := by
  let body : Run Unit := do
    m.execAll code.body
    Run.finishFlow
  have hbody : Parallel m m .stmt body body := (Parallel.execAll code.body).bind fun _ => .finishFlow
  have hframe : Run.HeedsAt .calls True False start (m.withFrame (.function code.displayName) scope body)
      (m.withFrame (.function code.displayName) scope body) := by
    apply withFrame_heedsAt (Machine.follows_iff.mp hm)
    . intro _
      exact hstart
    . exact hbody.follows hm _ fun _ => hstart
  rcases hframe with ⟨_, hsteady⟩ | ⟨hfalse, _⟩
  . have hsteady := hsteady trivial
    rcases Run.ends_bind ht with ⟨e, h⟩ | ⟨_, u, hu, ht⟩
    . rw [h] at hsteady
      exact hsteady.2
    . rw [hu] at hsteady
      rw [Run.ends_pure ht]
      exact hsteady.2
  . exact hfalse.elim

/-- A function that is accepted runs in a frame in which one more call is active, and leaves it again. -/
theorem invokeClosure_framed (m : Machine) (ref : ClosureRef) (this : Value) (args : List Value)
    (hlimit : ¬s.AtLimit)
    : let code := (s.heap.closure ref).code
      ∃ scope start, start.context.depth = s.context.depth + 1 ∧ start.world.settings = s.world.settings ∧
        m.invokeClosure ref this args s = Run.finishing (·.shallower.resume s.context)
          (do
            m.withFrame (.function code.displayName) scope do
              m.execAll code.body
              Run.finishFlow
            Run.retVal) start := by
  intro code
  rcases Run.callScope_opensScope (s.heap.closure ref) this args s with ⟨scope, heap, hscope, _⟩
  have hopen : Run.openCall ref this args s = .ok (code, scope) { s with heap := heap } := by
    show (Run.callScope (s.heap.closure ref) this args >>= fun scope => pure (code, scope)) s = _
    rw [Run.bind_ok hscope]
    rfl
  let opened : State := { s with heap := heap }
  rcases Run.hold_apply s.context.retVal (opened.withFlow .normal) with ⟨held, hheld⟩
  let start : State := { ((opened.withFlow .normal).withRetVal .undefined) with held := held }
  refine ⟨scope, start.withDepth (s.context.depth + 1), rfl, rfl, ?_⟩
  have hinvoke : m.invokeClosure ref this args s = m.withCall code.displayName scope (do
      m.execAll code.body
      Run.finishFlow) opened := by
    unfold Machine.invokeClosure
    rw [Run.bind_ok (checkDepth_below hlimit), Run.bind_ok hopen]
  have hset : Run.setRetVal .undefined { opened.withFlow .normal with held := held } = .ok () start := rfl
  let frame : Run Unit := m.withFrame (.function code.displayName) scope do
    m.execAll code.body
    Run.finishFlow
  have hdeeper : (Run.deeper frame >>= fun _ => Run.retVal) start =
      Run.finishing State.shallower (frame >>= fun _ => Run.retVal) (start.withDepth (s.context.depth + 1)) := by
    rw [← finishing_retVal, Run.bind_apply, Run.bind_apply, Run.deeper_apply]
    rfl
  have hbody : (do
      Run.hold s.context.retVal
      Run.setRetVal .undefined
      Run.deeper frame
      Run.retVal) (opened.withFlow .normal) =
      Run.finishing State.shallower (frame >>= fun _ => Run.retVal) (start.withDepth (s.context.depth + 1)) := by
    rw [Run.bind_ok hheld, Run.bind_ok hset, hdeeper]
  rw [hinvoke, Machine.withCall_apply]
  exact (finishing_congr hbody).trans (finishing_finishing _ _ _ _)

/-- A function that is accepted comes back to as many active calls as there were. -/
theorem invokeClosure_accepted {m : Machine} (hm : m.Follows True False m) (ref : ClosureRef) (this : Value)
    (args : List Value) (hlimit : ¬s.AtLimit)
    : let code := (s.heap.closure ref).code
      ∃ scope start, start.context.depth = s.context.depth + 1 ∧ start.world.settings = s.world.settings ∧
        m.invokeClosure ref this args s = Run.finishing (·.returned s)
          (do
            m.withFrame (.function code.displayName) scope do
              m.execAll code.body
              Run.finishFlow
            Run.retVal) start := by
  intro code
  rcases invokeClosure_framed m ref this args hlimit with ⟨scope, start, hdepth, hsettings, hinvoke⟩
  refine ⟨scope, start, hdepth, hsettings, hinvoke.trans ?_⟩
  have hstart : start.context.depth ≤ start.world.settings.maxDepth := by
    rw [hdepth, hsettings]
    exact Nat.lt_of_not_le hlimit
  apply finishing_agree
  intro t ht
  have hended : t.context.depth = s.context.depth + 1 := (function_depth hm hstart ht).trans hdepth
  have hshallower : t.shallower = t.withDepth s.context.depth := by
    unfold State.shallower
    rw [hended]
    rfl
  show t.shallower.resume s.context = _
  rw [hshallower]
  rfl

/-- Calls that are refused leave nothing behind but the error. -/
theorem runDefersFrom_refused {host : Host} {n : Nat} {calls : List Deferred} (hlimit : s.AtLimit)
    (hfunctions : ∀ call ∈ calls, call.callee.isFunction = true) (hflow : s.context.flow = .normal)
    (first : Option Error)
    : Machine.runDefers.go (host.machine (n + 1)) first calls s =
        .ok (if calls.isEmpty then first else first.or (some s.refusal)) s := by
  induction calls generalizing first with
  | nil => rfl
  | cons call calls ih =>
    rw [List.forall_mem_cons] at hfunctions
    have hcallable : s.heap.isCallable call.callee = true := isCallable_of_isFunction hfunctions.1 s.heap
    have hcall : Run.capture ((host.machine (n + 1)).makeCall call calls) s = .ok (.error s.refusal) s :=
      Run.capture_raised (makeCall_refused hfunctions.1 hlimit calls)
    have hset : Run.setFlow .normal s = .ok () s := by
      rw [← hflow]
      rfl
    rw [Machine.runDefersFrom_call hcallable, Run.bind_ok hcall]
    rw [Run.bind_ok hset, ih hfunctions.2]
    cases first <;> cases calls <;> rfl

/-- At the limit the calls that were put off in a frame have no effect. -/
theorem release_refused {host : Host} {n : Nat} {calls : List Deferred} (hlimit : s.AtLimit)
    (hfunctions : ∀ call ∈ calls, call.callee.isFunction = true) (hcalls : calls ≠ []) (raised : List Value)
    : (host.machine (n + 2)).release raised calls s = .ok (some s.refusal) s := by
  cases calls with
  | nil => exact absurd rfl hcalls
  | cons call calls =>
    rcases Machine.runDefers_cons raised call calls s with ⟨held, hruns⟩
    show (host.machine (n + 1)).runDefers raised (call :: calls) s = _
    let start : State := { s.withFlow .normal with held := held }
    have hstart : start.AtLimit := hlimit
    have hgo : Machine.runDefers.go (host.machine (n + 1)) none (call :: calls) start =
        .ok (some start.refusal) start :=
      runDefersFrom_refused hstart hfunctions rfl none
    rw [hruns, hgo]
    rfl

end Frames

/--
Calls that are put off, and the limit on active calls. A function that is accepted runs in a frame in
which one more call is active. Whatever is evaluated in a frame, and however it ends, the calls that were
put off in it have their turns while as many calls are active as when the frame was entered. Below the
limit each of them starts. At the limit functions are refused, so that a function that was the last one to
be accepted is left without its cleanup.
-/
theorem cleanup_starts_below_limit (host : Host) (hhost : host.KeepsDepth) (n : Nat)
    : let m := host.machine (n + 2)
      let inner := host.machine (n + 1)
      (∀ (ref : ClosureRef) (this : Value) (args : List Value) (s : State), ¬s.AtLimit →
        let code := (s.heap.closure ref).code
        ∃ scope start, start.context.depth = s.context.depth + 1 ∧ start.world.settings = s.world.settings ∧
          m.invokeClosure ref this args s = Run.finishing (·.returned s)
            (do
              m.withFrame (.function code.displayName) scope do
                m.execAll code.body
                Run.finishFlow
              Run.retVal) start) ∧
      (∀ (α : Type) (l : Level) (body : Run α) (kind : FrameKind) (scope : ScopeRef) (s u : State)
          (r : Except Error α),
        Parallel m m l body body → s.context.depth ≤ s.world.settings.maxDepth →
        Run.capture body (s.enter kind scope) = .ok r u →
        let calls := u.context.stack.top.defers
        (s.AtLimit → (∀ call ∈ calls, call.callee.isFunction = true) → calls ≠ [] →
          m.release (Machine.raisedValues r) calls u.leave = .ok (some s.refusal) u.leave) ∧
        ∃ held,
          let start := { u.leave.withFlow .normal with held := held }
          (∀ result t, Run.capture (m.withFrame kind scope body) s = .ok result t ↔
            ∃ outcomes v, Handled inner calls start outcomes v ∧
              t = { v.resume u.context with held := u.held } ∧ result = settled r (firstError outcomes)) ∧
          (∀ outcomes v, Handled inner calls start outcomes v → (inner.turns calls start).map Turn.call = calls) ∧
          ∀ turn ∈ inner.turns calls start,
            turn.state.context.depth = s.context.depth ∧
            (s.AtLimit → turn.call.callee.isFunction = true →
              inner.makeCall turn.call turn.later turn.state = .error (.raised s.refusal) turn.state) ∧
            ((turn.call.callee.isFunction = true → ¬s.AtLimit) →
              inner.makeCall turn.call turn.later turn.state =
                host.startCall n turn.call turn.later turn.state)) := by
  intro m inner
  constructor
  . intro ref this args s hlimit
    exact invokeClosure_accepted (machine_follows hhost (n + 2)) ref this args hlimit
  . intro α l body kind scope s u r hbody hs hu calls
    have hm : m.Follows True False m := machine_follows hhost (n + 2)
    have hinner : inner.Follows True False inner := machine_follows hhost (n + 1)
    have hsteady := (hbody.follows hm).capture.steady (s := s.enter kind scope) hs
    rw [hu] at hsteady
    have hsettings : u.world.settings = s.world.settings := hsteady.1
    have hdepth : u.context.depth = s.context.depth := hsteady.2
    -- The frame is left, and every call has its turn, in states that are at the limit if `s` is.
    have hsame {t : State} (hdepth' : t.context.depth = u.context.depth)
        (hsettings' : t.world.settings = u.world.settings) : (t.AtLimit ↔ s.AtLimit) ∧ t.refusal = s.refusal := by
      unfold State.AtLimit State.refusal
      rw [hdepth', hsettings', hdepth, hsettings]
      exact ⟨Iff.rfl, rfl⟩
    constructor
    . intro hlimit hfunctions hcalls
      have hleave := hsame (t := u.leave) rfl rfl
      rw [← hleave.2]
      exact release_refused (hleave.1.mpr hlimit) hfunctions hcalls _
    . rcases withFrame_handled host (n + 1) hu with ⟨held, hhandled⟩
      refine ⟨held, hhandled, fun outcomes v h => h.turns, ?_⟩
      intro turn hturn
      have hstart : ({ u.leave.withFlow .normal with held := held } : State).context.depth ≤
          ({ u.leave.withFlow .normal with held := held } : State).world.settings.maxDepth := by
        show u.context.depth ≤ u.world.settings.maxDepth
        rw [hdepth, hsettings]
        exact hs
      rcases turns_depth hinner hstart turn hturn with ⟨hdepth', hsettings'⟩
      have hturn := hsame hdepth' hsettings'
      refine ⟨hdepth'.trans hdepth, ?_, ?_⟩
      . intro hlimit hfunction
        rw [← hturn.2]
        exact makeCall_refused hfunction (hturn.1.mpr hlimit) _
      . intro hroom
        exact makeCall_started (fun hfunction hlimit => hroom hfunction (hturn.1.mp hlimit)) _

/-- A block that puts a function off, at the limit and below it. -/
theorem scripted_cleanup
    : let host := Host.scripted fun _ => some []
      let s := (Engine.bareState { maxDepth := 1 } .silent 0).withDepth 1
      let body := Run.addBlockDefer (.func ⟨0⟩) [] false
      let u := Engine.stateAfter body (s.enter .block ⟨0⟩)
      host.KeepsDepth ∧ s.AtLimit ∧ Run.capture body (s.enter .block ⟨0⟩) = .ok (.ok ()) u ∧
        (host.machine 2).release [] u.context.stack.top.defers u.leave = .ok (some s.refusal) u.leave ∧
        ∀ ref this args, ∃ start, start.context.depth = 1 ∧
          ∃ x, (host.machine 2).invokeClosure ref this args (s.withDepth 0) =
            Run.finishing (·.returned (s.withDepth 0)) x start := by
  intro host s body u
  have hhost : host.KeepsDepth := scripted_follows
  have hbody : Run.capture body (s.enter .block ⟨0⟩) = .ok (.ok ()) u := rfl
  have hlimit : s.AtLimit := Nat.le_refl 1
  have hbelow : ¬(s.withDepth 0).AtLimit := Nat.not_succ_le_zero 0
  have h := cleanup_starts_below_limit host hhost 0
  have hparallel : Parallel (host.machine 2) (host.machine 2) .expr body body :=
    .addBlockDefer Level.expr_ne_call (.func ⟨0⟩) [] false
  have hrefused := (h.2 Unit .expr body .block ⟨0⟩ s u (.ok ()) hparallel (Nat.le_refl 1) hbody).1 hlimit
  refine ⟨hhost, hlimit, hbody, hrefused ?_ nofun, ?_⟩
  . exact List.forall_mem_singleton.mpr rfl
  . intro ref this args
    rcases h.1 ref this args (s.withDepth 0) hbelow with ⟨scope, start, hdepth, _, happly⟩
    exact ⟨start, hdepth, _, happly⟩

end ScriptEngine
