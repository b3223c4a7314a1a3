import ScriptEngine.Engine.Machine
import ScriptEngine.Proofs.Run

/-!
This module contains what the frames of blocks and functions do, written out: how a frame is left,
how the calls that were put off are made, and how a function and a thread run in a context that is
not that of their caller.
-/

namespace ScriptEngine

namespace Machine

variable {α : Type}

/-- What is left to do in a frame whose body has ended. -/
theorem withFrame_captured {m : Machine} {kind : FrameKind} {scope : ScopeRef} {body : Run α}
    {s u : State} {r : Except Error α} (h : Run.capture body (s.enter kind scope) = .ok r u)
    : m.withFrame kind scope body s =
        (m.release (raisedValues r) u.context.stack.top.defers >>= settle r) u.leave := by
  show (Run.capture body >>= _) (s.enter kind scope) = _
  rw [Run.bind_ok h]
  rfl

/-- A thread runs in a context that depends on nothing but the state in which it is spawned. -/
theorem runThread_apply (callee : Value) (args : List Value) (s : State)
    : ∃ context heap, s.Forks context heap ∧ ∀ m : Machine, m.runThread callee args s =
        match Run.capture (Run.locating (m.invoke callee .undefined args))
          { s with heap := heap, context := context, held := .context s.context :: s.held } with
        | .ok outcome t => .ok outcome { t with context := s.context, held := s.held }
        | .error .died t =>
          .ok (.error (.ofCause (.internal "spawned thread exited without a result")))
            { t with context := s.context, held := s.held }
        | .error halt t => .error halt { t with context := s.context, held := s.held } := by
  rcases Run.newContext_apply s.context.stack.top.position s with ⟨context, heap, hforks, hnew⟩
  refine ⟨context, heap, hforks, ?_⟩
  intro m
  have hposition : Run.position s = .ok s.context.stack.top.position s := rfl
  unfold runThread
  rw [Run.bind_ok hposition, Run.bind_ok hnew, Run.bind_apply, Run.inContext_apply]
  cases Run.capture (Run.locating (m.invoke callee .undefined args))
      { s with heap := heap, context := context, held := .context s.context :: s.held } with
  | ok outcome t => rfl
  | error halt t => cases halt <;> rfl

/-- The same of a computation that the current thread waits for. -/
theorem forked_apply (s : State)
    : ∃ context heap, s.Forks context heap ∧ ∀ {α : Type} (x : Run α), Run.forked x s =
        match x { s with heap := heap, context := context, held := .context s.context :: s.held } with
        | .ok a t => .ok a { t with context := s.context, held := s.held }
        | .error halt t => .error halt { t with context := s.context, held := s.held } := by
  rcases Run.newContext_apply s.context.stack.top.position s with ⟨context, heap, hforks, hnew⟩
  refine ⟨context, heap, hforks, ?_⟩
  intro α x
  have hposition : Run.position s = .ok s.context.stack.top.position s := rfl
  unfold Run.forked
  rw [Run.bind_ok hposition, Run.bind_ok hnew, Run.bind_apply, Run.inContext_apply]
  cases x { s with heap := heap, context := context, held := .context s.context :: s.held } <;> rfl

/-- A function runs without the signal and the value of its caller's statement, which come back. -/
theorem withCall_apply (m : Machine) (name : String) (scope : ScopeRef) (body : Run Unit) (s : State)
    : m.withCall name scope body s =
        Run.finishing (·.resume s.context)
          (do
            Run.hold s.context.retVal
            Run.setRetVal .undefined
            Run.deeper (m.withFrame (.function name) scope body)
            Run.retVal)
          (s.withFlow .normal) := by
  rcases Run.hold_apply s.context.retVal (s.withFlow .normal) with ⟨held, hheld⟩
  have hflow : Run.takeFlow s = .ok s.context.flow (s.withFlow .normal) := rfl
  have hvalue : Run.retVal (s.withFlow .normal) = .ok s.context.retVal (s.withFlow .normal) := rfl
  unfold withCall Run.finishing
  rw [Run.bind_ok hflow, Run.bind_ok hvalue, Run.bind_ok hheld, Run.bind_ok hheld]
  apply Run.capture_finishing
  . intro a t
    rfl
  . intro e t
    rfl

/-- Calls that were put off run without the signal of the statement, which comes back with its value. -/
theorem runDefers_cons (raised : List Value) (call : Deferred) (calls : List Deferred) (s : State)
    : ∃ held, ∀ m : Machine, m.runDefers raised (call :: calls) s =
        match runDefers.go m none (call :: calls) { s.withFlow .normal with held := held } with
        | .ok first t => .ok first { t.resume s.context with held := s.held }
        | .error halt t => .error halt { t with held := s.held } := by
  rcases Run.hold_apply s.context.retVal (s.withFlow .normal) with ⟨held, hvalue⟩
  rcases Run.holdAll_apply raised { s.withFlow .normal with held := held } with ⟨held', hraised⟩
  refine ⟨held', ?_⟩
  intro m
  have hgo : (do
      Run.hold s.context.retVal
      Run.holdAll raised
      runDefers.go m none (call :: calls) : Run (Option Error)) (s.withFlow .normal) =
      runDefers.go m none (call :: calls) { s.withFlow .normal with held := held' } := by
    rw [Run.bind_ok hvalue, Run.bind_ok hraised]
  have hruns : m.runDefers raised (call :: calls) s =
      (Run.lettingGo (do
          Run.hold s.context.retVal
          Run.holdAll raised
          runDefers.go m none (call :: calls)) >>= fun first => do
        Run.setFlow s.context.flow
        Run.setRetVal s.context.retVal
        return first) (s.withFlow .normal) := rfl
  rw [hruns, Run.bind_apply]
  unfold Run.lettingGo
  rw [hgo]
  cases runDefers.go m none (call :: calls) { s.withFlow .normal with held := held' } <;> rfl

/-- The error of a computation that failed. -/
def failure : Except Error α → Option Error
  | .ok _ => none
  | .error e => some e

/-- Makes a call that was put off, while those after it wait for their turn. -/
def makeCall (m : Machine) (call : Deferred) (calls : List Deferred) : Run Value :=
  Run.lettingGo do
    Run.hold call.callee
    Run.keep (.calls calls)
    m.invoke call.callee .undefined call.args

theorem runDefersFrom_call {m : Machine} {first : Option Error} {call : Deferred} {calls : List Deferred}
    {s : State} (h : s.heap.isCallable call.callee = true)
    : runDefers.go m first (call :: calls) s =
        (Run.capture (m.makeCall call calls) >>= fun r => do
          Run.setFlow .normal
          runDefers.go m (first.or (failure r)) calls) s := by
  have hcallable : Run.isCallable call.callee s = .ok true s := by
    rw [← h]
    rfl
  rw [runDefers.go, Run.bind_ok hcallable, if_pos rfl]
  show (Run.capture (m.makeCall call calls) >>= _) s = _
  rw [Run.bind_apply, Run.bind_apply]
  cases Run.capture (m.makeCall call calls) s with
  | ok r t => cases r <;> cases first <;> rfl
  | error halt t => rfl

theorem runDefersFrom_skip {m : Machine} {first : Option Error} {call : Deferred} {calls : List Deferred}
    {s : State} (h : s.heap.isCallable call.callee = false) (hskip : call.isOptional || first.isSome)
    : runDefers.go m first (call :: calls) s = runDefers.go m first calls s := by
  have hcallable : Run.isCallable call.callee s = .ok false s := by
    rw [← h]
    rfl
  rw [runDefers.go, Run.bind_ok hcallable, if_neg nofun, if_pos hskip]

theorem runDefersFrom_fault {m : Machine} {first : Option Error} {call : Deferred} {calls : List Deferred}
    {s : State} (h : s.heap.isCallable call.callee = false) (hskip : ¬(call.isOptional || first.isSome))
    : runDefers.go m first (call :: calls) s =
        (Run.located (.ofCause .deferNotCallable) >>= fun e => runDefers.go m (some e) calls) s := by
  have hcallable : Run.isCallable call.callee s = .ok false s := by
    rw [← h]
    rfl
  rw [runDefers.go, Run.bind_ok hcallable, if_neg nofun, if_neg hskip]

/-- The errors of calls that were put off are given as a result. -/
theorem runDefersFrom_ne_raised (m : Machine) (first : Option Error) (calls : List Deferred)
    (s t : State) (e : Error)
    : runDefers.go m first calls s ≠ .error (.raised e) t := by
  induction calls generalizing first s with
  | nil =>
    intro h
    injection h
  | cons call calls ih =>
    cases hcallable : s.heap.isCallable call.callee with
    | true =>
      rw [runDefersFrom_call hcallable, Run.bind_apply]
      cases hcall : Run.capture (m.makeCall call calls) s with
      | ok r u => exact ih _ (u.withFlow .normal)
      | error halt u =>
        intro h
        injection h with hhalt hstate
        rw [hhalt] at hcall
        exact Run.capture_ne_raised _ _ _ _ hcall
    | false =>
      by_cases hskip : call.isOptional || first.isSome
      . rw [runDefersFrom_skip hcallable hskip]
        exact ih first s
      . rw [runDefersFrom_fault hcallable hskip]
        exact ih _ s

theorem runDefers_ne_raised (m : Machine) (raised : List Value) (calls : List Deferred) (s t : State)
    (e : Error)
    : m.runDefers raised calls s ≠ .error (.raised e) t := by
  intro h
  cases calls with
  | nil => injection h
  | cons call calls =>
    rcases runDefers_cons raised call calls s with ⟨held, hruns⟩
    rw [hruns m] at h
    split at h
    . injection h
    . next hgo =>
      injection h with h
      rw [h] at hgo
      exact runDefersFrom_ne_raised _ _ _ _ _ _ hgo

theorem ends_settle {r : Except Error α} {deferred : Option Error} {s t : State}
    (h : (settle r deferred).Ends s t)
    : t = s := by
  unfold settle at h
  split at h
  . exact Run.ends_raiseError h
  . exact Run.ends_raiseError h
  . exact Run.ends_pure h

/-- A frame fails with the error of its body, or else with the first error of the calls put off in it. -/
theorem withFrame_raised {m : Machine} {kind : FrameKind} {scope : ScopeRef} {body : Run α}
    {s t : State} {e : Error} (h : m.withFrame kind scope body s = .error (.raised e) t)
    : ∃ r u, Run.capture body (s.enter kind scope) = .ok r u ∧
        let release := m.release (raisedValues r) u.context.stack.top.defers u.leave
        (release = .error (.raised e) t ∨ ∃ deferred, release = .ok deferred t ∧
          (r = .error e ∨ (∃ a, r = .ok a) ∧ deferred = some e)) := by
  have h : (Run.capture body >>= fun r => leaveFrame >>= fun calls =>
      m.release (raisedValues r) calls >>= settle r) (s.enter kind scope) = .error (.raised e) t := h
  rcases Run.bind_raised h with h | ⟨r, u, hr, h⟩
  . exact absurd h (Run.capture_ne_raised _ _ _ _)
  . refine ⟨r, u, hr, ?_⟩
    have h : (m.release (raisedValues r) u.context.stack.top.defers >>= settle r) u.leave =
        .error (.raised e) t := h
    rcases Run.bind_raised h with h | ⟨deferred, v, hv, h⟩
    . exact .inl h
    . right
      unfold settle at h
      split at h
      . injection h with he hv'
        injection he with he
        rw [← hv', ← he]
        exact ⟨deferred, hv, .inl rfl⟩
      . injection h with he hv'
        injection he with he
        rw [← hv', ← he]
        exact ⟨_, hv, .inr ⟨⟨_, rfl⟩, rfl⟩⟩
      . injection h

theorem ends_withFrame {m : Machine} {kind : FrameKind} {scope : ScopeRef} {body : Run α} {s t : State}
    (h : (m.withFrame kind scope body).Ends s t)
    : ∃ u raised calls, body.Ends (s.enter kind scope) u ∧ (m.release raised calls).Ends u.leave t := by
  have h : (Run.capture body >>= fun r => leaveFrame >>= fun calls =>
      m.release (raisedValues r) calls >>= settle r).Ends (s.enter kind scope) t := h
  rcases Run.ends_capture_bind h with ⟨r, u, hr, hu, ht⟩
  refine ⟨u, raisedValues r, u.context.stack.top.defers, hu, ?_⟩
  have ht : (m.release (raisedValues r) u.context.stack.top.defers >>= settle r).Ends
      u.leave t := ht
  rcases Run.ends_bind ht with ⟨e, ht⟩ | ⟨deferred, v, hv, ht⟩
  . exact .raised ht
  . rw [ends_settle ht]
    exact .ok hv

end Machine

theorem onDeepStack_eq {α : Type} (level : Nat) (f : Unit → α) : onDeepStack level f = f () := by
  unfold onDeepStack
  split
  . rfl
  . rfl

section Levels

variable (host : Host) (fuel : Nat) (m : Machine)

theorem above_eval (e : Expr) : (host.above fuel m).eval e = Run.lettingGo (m.evalExpr e) := by
  funext s
  exact onDeepStack_eq fuel fun _ => Run.lettingGo (m.evalExpr e) s

theorem above_exec (stmt : Stmt) : (host.above fuel m).exec stmt = Run.lettingGo (m.execStmt stmt) := by
  funext s
  exact onDeepStack_eq fuel fun _ => Run.lettingGo (m.execStmt stmt) s

theorem above_invoke (callee this : Value) (args : List Value)
    : (host.above fuel m).invoke callee this args =
        Run.lettingGo (m.invokeWith (Library.runRoutine m) callee this args) := by
  funext s
  exact onDeepStack_eq fuel fun _ => Run.lettingGo (m.invokeWith (Library.runRoutine m) callee this args) s

end Levels

theorem machine_release_ne_raised (host : Host) (n : Nat) (raised : List Value) (calls : List Deferred)
    (s t : State) (e : Error)
    : (host.machine n).release raised calls s ≠ .error (.raised e) t := by
  cases n with
  | zero =>
    intro h
    injection h with h
    injection h
  | succ n => exact Machine.runDefers_ne_raised (host.machine n) raised calls s t e

end ScriptEngine
