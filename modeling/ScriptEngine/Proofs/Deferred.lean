import ScriptEngine.Engine.Setup
import ScriptEngine.Proofs.Frames

/-!
This module contains the calls that are put off until a frame or a module ends. They are made once
each, the last one first, however the frame or the module ended and whether or not calls before them
failed, and of all errors the first one counts.
-/

namespace ScriptEngine

/--
Every one of the calls was handled in its turn, with an outcome for each. A callee that can be called
is called once, without a signal; of the others those that are not optional give an error.
-/
inductive Handled (m : Machine) : List Deferred → State → List (Option Error) → State → Prop where
  | done (s : State) : Handled m [] s [] s
  | called {call : Deferred} {calls : List Deferred} {s t u : State} {r : Except Error Value}
      {outcomes : List (Option Error)} (hcallable : s.heap.isCallable call.callee = true)
      (hflow : s.context.flow = .normal) (hcall : Run.capture (m.makeCall call calls) s = .ok r u)
      (hrest : Handled m calls (u.withFlow .normal) outcomes t)
      : Handled m (call :: calls) s (Machine.failure r :: outcomes) t
  | skipped {call : Deferred} {calls : List Deferred} {s t : State} {outcomes : List (Option Error)}
      (hcallable : s.heap.isCallable call.callee = false) (hoptional : call.isOptional = true)
      (hrest : Handled m calls s outcomes t)
      : Handled m (call :: calls) s (none :: outcomes) t
  | refused {call : Deferred} {calls : List Deferred} {s t : State} {outcomes : List (Option Error)}
      (hcallable : s.heap.isCallable call.callee = false) (hoptional : call.isOptional = false)
      (hrest : Handled m calls s outcomes t)
      : Handled m (call :: calls) s (some (s.located (.ofCause .deferNotCallable)) :: outcomes) t

/-- The error that counts. -/
def firstError (outcomes : List (Option Error)) : Option Error := outcomes.findSome? id

theorem firstError_cons (outcome : Option Error) (outcomes : List (Option Error))
    : firstError (outcome :: outcomes) = outcome.or (firstError outcomes) := by
  unfold firstError
  cases outcome <;> rfl

/-- How a frame ends, given how its body ended and the first error of the calls put off in it. -/
def settled {α : Type} (r : Except Error α) (first : Option Error) : Except Error α :=
  match r, first with
  | .error e, _ => .error e
  | .ok _, some e => .error e
  | .ok a, none => .ok a

section Handling

variable {m : Machine}

theorem handled_nil {outcomes : List (Option Error)} {s t : State}
    : Handled m [] s outcomes t ↔ outcomes = [] ∧ t = s := by
  constructor
  . intro h
    cases h
    exact ⟨rfl, rfl⟩
  . intro ⟨houtcomes, ht⟩
    rw [houtcomes, ht]
    exact .done s

theorem handled_call {call : Deferred} {calls : List Deferred} {outcomes : List (Option Error)}
    {s t : State} (hs : s.context.flow = .normal) (hcallable : s.heap.isCallable call.callee = true)
    : Handled m (call :: calls) s outcomes t ↔
        ∃ r u rest, Run.capture (m.makeCall call calls) s = .ok r u ∧
          Handled m calls (u.withFlow .normal) rest t ∧ outcomes = Machine.failure r :: rest := by
  constructor
  . intro h
    cases h with
    | called _ _ hcall hrest => exact ⟨_, _, _, hcall, hrest, rfl⟩
    | skipped hother =>
      rw [hcallable] at hother
      injection hother
    | refused hother =>
      rw [hcallable] at hother
      injection hother
  . intro ⟨r, u, rest, hcall, hrest, houtcomes⟩
    rw [houtcomes]
    exact .called hcallable hs hcall hrest

/-- The outcome of a call whose callee cannot be called. -/
def Deferred.uncalled (call : Deferred) (s : State) : Option Error :=
  if call.isOptional then none else some (s.located (.ofCause .deferNotCallable))

theorem handled_uncalled {call : Deferred} {calls : List Deferred} {outcomes : List (Option Error)}
    {s t : State} (hcallable : s.heap.isCallable call.callee = false)
    : Handled m (call :: calls) s outcomes t ↔
        ∃ rest, Handled m calls s rest t ∧ outcomes = call.uncalled s :: rest := by
  unfold Deferred.uncalled
  constructor
  . intro h
    cases h with
    | called hother =>
      rw [hcallable] at hother
      injection hother
    | skipped _ hoptional hrest =>
      rw [if_pos hoptional]
      exact ⟨_, hrest, rfl⟩
    | refused _ hoptional hrest =>
      rw [hoptional]
      exact ⟨_, hrest, rfl⟩
  . intro ⟨rest, hrest, houtcomes⟩
    rw [houtcomes]
    cases hoptional : call.isOptional with
    | true => exact .skipped hcallable hoptional hrest
    | false => exact .refused hcallable hoptional hrest

/-- Calls whose callee cannot be called add their error, unless there was one before. -/
theorem runDefersFrom_uncalled {first : Option Error} {call : Deferred} {calls : List Deferred}
    {s : State} (hcallable : s.heap.isCallable call.callee = false)
    : Machine.runDefers.go m first (call :: calls) s =
        Machine.runDefers.go m (first.or (call.uncalled s)) calls s := by
  unfold Deferred.uncalled
  cases hoptional : call.isOptional with
  | true =>
    rw [Machine.runDefersFrom_skip hcallable]
    . cases first <;> rfl
    . rw [hoptional]
      rfl
  | false =>
    cases first with
    | some e =>
      rw [Machine.runDefersFrom_skip hcallable]
      . rfl
      . rw [hoptional]
        rfl
    | none =>
      rw [Machine.runDefersFrom_fault hcallable]
      . rfl
      . rw [hoptional]
        nofun

theorem runDefersFrom_handled (first : Option Error) (calls : List Deferred) {first' : Option Error}
    {s t : State} (hs : s.context.flow = .normal)
    : Machine.runDefers.go m first calls s = .ok first' t ↔
        ∃ outcomes, Handled m calls s outcomes t ∧ first' = first.or (firstError outcomes) := by
  induction calls generalizing first s with
  | nil =>
    constructor
    . intro h
      injection h with hfirst ht
      refine ⟨[], handled_nil.mpr ⟨rfl, ht.symm⟩, ?_⟩
      rw [← hfirst]
      cases first <;> rfl
    . intro ⟨outcomes, h, hfirst⟩
      rcases handled_nil.mp h with ⟨houtcomes, ht⟩
      rw [hfirst, houtcomes, ht]
      cases first <;> rfl
  | cons call calls ih =>
    cases hcallable : s.heap.isCallable call.callee with
    | true =>
      rw [Machine.runDefersFrom_call hcallable, Run.bind_apply]
      constructor
      . intro h
        split at h
        . next r u hcall =>
          have h : Machine.runDefers.go m (first.or (Machine.failure r)) calls (u.withFlow .normal) =
              .ok first' t := h
          rcases (ih _ rfl).mp h with ⟨rest, hrest, hfirst⟩
          refine ⟨_, (handled_call hs hcallable).mpr ⟨r, u, rest, hcall, hrest, rfl⟩, ?_⟩
          rw [hfirst, firstError_cons, Option.or_assoc]
        . injection h
      . intro ⟨outcomes, h, hfirst⟩
        rcases (handled_call hs hcallable).mp h with ⟨r, u, rest, hcall, hrest, houtcomes⟩
        rw [houtcomes, firstError_cons, ← Option.or_assoc] at hfirst
        rw [hcall]
        exact (ih _ rfl).mpr ⟨rest, hrest, hfirst⟩
    | false =>
      rw [runDefersFrom_uncalled hcallable, ih _ hs]
      constructor
      . intro ⟨rest, hrest, hfirst⟩
        refine ⟨_, (handled_uncalled hcallable).mpr ⟨rest, hrest, rfl⟩, ?_⟩
        rw [hfirst, firstError_cons, Option.or_assoc]
      . intro ⟨outcomes, h, hfirst⟩
        rcases (handled_uncalled hcallable).mp h with ⟨rest, hrest, houtcomes⟩
        rw [houtcomes, firstError_cons, ← Option.or_assoc] at hfirst
        exact ⟨rest, hrest, hfirst⟩

/-- Calls that are put off see nothing of the signal, which is there again when they are done. -/
theorem runDefers_handled (raised : List Value) (calls : List Deferred) (s : State)
    : ∃ held, ∀ first t, m.runDefers raised calls s = .ok first t ↔
        ∃ outcomes u, Handled m calls { s.withFlow .normal with held := held } outcomes u ∧
          t = { u.resume s.context with held := s.held } ∧ first = firstError outcomes := by
  cases calls with
  | nil =>
    refine ⟨s.held, ?_⟩
    intro first t
    constructor
    . intro h
      injection h with hfirst ht
      exact ⟨[], _, .done _, ht.symm, hfirst.symm⟩
    . intro ⟨outcomes, u, h, ht, hfirst⟩
      rcases handled_nil.mp h with ⟨houtcomes, hu⟩
      rw [ht, hfirst, houtcomes, hu]
      rfl
  | cons call calls =>
    rcases Machine.runDefers_cons raised call calls s with ⟨held, hruns⟩
    refine ⟨held, ?_⟩
    intro first t
    rw [hruns m]
    have hflow : ({ s.withFlow .normal with held := held } : State).context.flow = .normal := rfl
    constructor
    . intro h
      split at h
      . next first' u hu =>
        injection h with hfirst ht
        rcases (runDefersFrom_handled none (call :: calls) hflow).mp hu with ⟨outcomes, hhandled, hfirst'⟩
        refine ⟨outcomes, u, hhandled, ht.symm, ?_⟩
        rw [← hfirst, hfirst']
        rfl
      . injection h
    . intro ⟨outcomes, u, h, ht, hfirst⟩
      rw [(runDefersFrom_handled none (call :: calls) hflow).mpr ⟨outcomes, h, rfl⟩, ht, hfirst]
      rfl

theorem capture_settle {α : Type} {r result : Except Error α} {x : Run (Option Error)} {s t : State}
    (hx : ∀ t e, x s ≠ .error (.raised e) t)
    : Run.capture (x >>= Machine.settle r) s = .ok result t ↔
        ∃ first, x s = .ok first t ∧ result = settled r first := by
  have hsettle (first : Option Error) (u : State)
      : Run.capture (Machine.settle r first) u = .ok (settled r first) u := by
    cases r <;> cases first <;> rfl
  cases hr : x s with
  | ok first u =>
    have hcapture : Run.capture (x >>= Machine.settle r) s = .ok (settled r first) u := by
      rw [← hsettle]
      unfold Run.capture
      rw [Run.bind_ok hr]
    rw [hcapture]
    constructor
    . intro h
      injection h with hresult ht
      exact ⟨first, by rw [ht], hresult.symm⟩
    . intro ⟨first', hfirst, hresult⟩
      injection hfirst with hfirst ht
      rw [hresult, hfirst, ht]
  | error halt u =>
    have hcapture : Run.capture (x >>= Machine.settle r) s = .error halt u := by
      unfold Run.capture
      rw [Run.bind_error hr]
      cases halt with
      | raised e => exact absurd hr (hx u e)
      | exhausted => rfl
      | died => rfl
    rw [hcapture]
    constructor
    . intro h
      injection h
    . intro ⟨_, h, _⟩
      injection h

end Handling

/-- How a frame ends whose body has ended. -/
theorem withFrame_handled {α : Type} (host : Host) (n : Nat) {kind : FrameKind} {scope : ScopeRef}
    {body : Run α} {s u : State} {r : Except Error α}
    (h : Run.capture body (s.enter kind scope) = .ok r u)
    : ∃ held, ∀ result t,
        Run.capture ((host.machine (n + 1)).withFrame kind scope body) s = .ok result t ↔
          ∃ outcomes v,
            Handled (host.machine n) u.context.stack.top.defers { u.leave.withFlow .normal with held := held }
              outcomes v ∧
            t = { v.resume u.context with held := u.held } ∧ result = settled r (firstError outcomes) := by
  rcases runDefers_handled (m := host.machine n) (Machine.raisedValues r) u.context.stack.top.defers u.leave
    with ⟨held, hhandled⟩
  refine ⟨held, ?_⟩
  intro result t
  have hcapture : Run.capture ((host.machine (n + 1)).withFrame kind scope body) s =
      Run.capture ((host.machine n).runDefers (Machine.raisedValues r) u.context.stack.top.defers >>=
        Machine.settle r) u.leave := by
    unfold Run.capture
    rw [Machine.withFrame_captured h]
    rfl
  rw [hcapture, capture_settle (Machine.runDefers_ne_raised _ _ _ _)]
  constructor
  . intro ⟨first, hfirst, hresult⟩
    rcases (hhandled first t).mp hfirst with ⟨outcomes, v, hv, ht, houtcomes⟩
    rw [houtcomes] at hresult
    exact ⟨outcomes, v, hv, ht, hresult⟩
  . intro ⟨outcomes, v, hv, ht, hresult⟩
    exact ⟨firstError outcomes, (hhandled _ t).mpr ⟨outcomes, v, hv, ht, rfl⟩, hresult⟩

namespace Stack

/-- The frame of the module. -/
def root (s : Stack) : Frame := s.below.getLastD s.top

theorem takeRootDefers_go (frames : List Frame) (frame : Frame)
    : let root := frames.getLastD frame
      takeRootDefers.go (frame :: frames) =
        (root.defers, (frame :: frames).dropLast ++ [{ root with defers := [] }]) := by
  induction frames generalizing frame with
  | nil => rfl
  | cons next frames ih =>
    rw [takeRootDefers.go, ih next]
    . rw [List.getLastD_cons, List.dropLast_cons_cons]
      rfl
    . nofun

theorem takeRootDefers_fst (s : Stack) : s.takeRootDefers.1 = s.root.defers := by
  unfold takeRootDefers frames
  rw [takeRootDefers_go]
  rfl

/-- The module has no calls put off any more once they are taken. -/
theorem takeRootDefers_root (s : Stack) : s.takeRootDefers.2.root = { s.root with defers := [] } := by
  unfold takeRootDefers frames
  rw [takeRootDefers_go]
  unfold root
  cases s.below with
  | nil => rfl
  | cons next frames =>
    rw [List.dropLast_cons_cons]
    show List.getLastD ((next :: frames).dropLast ++ [_]) _ = _
    rw [List.getLastD_concat]

theorem addDefer_registers {blocks below : List Frame} {frame : Frame} (call : Deferred)
    (hblocks : ∀ block ∈ blocks, block.kind.isBoundary = false) (hframe : frame.kind.isBoundary = true)
    : addDefer.go call (blocks ++ frame :: below) =
        blocks ++ { frame with defers := call :: frame.defers } :: below := by
  induction blocks with
  | nil =>
    show addDefer.go call (frame :: below) = _
    rw [addDefer.go, if_pos hframe]
    rfl
  | cons block blocks ih =>
    have hblock := hblocks block (.head _)
    show addDefer.go call (block :: (blocks ++ frame :: below)) = _
    rw [addDefer.go, if_neg, ih]
    . rfl
    . intro other hother
      exact hblocks other (.tail _ hother)
    . rw [hblock]
      nofun

end Stack

/-- The state after the calls that were put off until the module ends are taken. -/
def State.takeRoot (s : State) : State :=
  s.withContext { s.context with stack := s.context.stack.takeRootDefers.2 }

/-- How a module ends, given how its statements and the calls put off in it ended, and the state. -/
def exported (r : Except Error Unit) (s : State) : Except Error Value × State :=
  match r with
  | .error e => (.error e, s)
  | .ok () => (.ok (.object s.context.exports), s.withRetVal (.object s.context.exports))

theorem capture_exported {x : Run Unit} {s t : State} {result : Except Error Value}
    : Run.capture (x >>= fun _ => do
        let exports ← Run.exports
        Run.setRetVal (.object exports)
        return .object exports) s = .ok result t ↔
        ∃ r u, Run.capture x s = .ok r u ∧ (result, t) = exported r u := by
  unfold Run.capture
  cases hx : x s with
  | ok a u =>
    rw [Run.bind_ok hx]
    constructor
    . intro h
      injection h with hresult ht
      refine ⟨.ok (), u, rfl, ?_⟩
      rw [← hresult, ← ht]
      rfl
    . intro ⟨r, v, hv, h⟩
      injection hv with hr hu
      rw [← hr, ← hu] at h
      injection h with hresult ht
      rw [hresult, ht]
      rfl
  | error halt u =>
    rw [Run.bind_error hx]
    cases halt with
    | raised e =>
      constructor
      . intro h
        injection h with hresult ht
        refine ⟨.error e, u, rfl, ?_⟩
        rw [← hresult, ← ht]
        rfl
      . intro ⟨r, v, hv, h⟩
        injection hv with hr hu
        rw [← hr, ← hu] at h
        injection h with hresult ht
        rw [hresult, ht]
    | exhausted =>
      constructor
      . intro h
        injection h
      . intro ⟨r, v, hv, _⟩
        injection hv
    | died =>
      constructor
      . intro h
        injection h
      . intro ⟨r, v, hv, _⟩
        injection hv

/-- What is left to do in a module whose statements have ended. -/
theorem runModule_captured {m : Machine} {stmts : List Stmt} {s u : State} {r : Except Error Unit}
    (h : Run.capture (do m.execAll stmts; Run.finishFlow) s = .ok r u)
    : m.runModule stmts s =
        (m.release (Machine.raisedValues r) u.context.stack.root.defers >>= Machine.settle r >>= fun _ => do
          let exports ← Run.exports
          Run.setRetVal (.object exports)
          return .object exports) u.takeRoot := by
  unfold Machine.runModule
  rw [Run.bind_ok h, ← Stack.takeRootDefers_fst, bind_assoc]
  rfl

/-- How a module ends whose statements have ended. -/
theorem runModule_handled (host : Host) (n : Nat) {stmts : List Stmt} {s u : State} {r : Except Error Unit}
    (h : Run.capture (do (host.machine (n + 1)).execAll stmts; Run.finishFlow) s = .ok r u)
    : ∃ held, ∀ result t,
        Run.capture ((host.machine (n + 1)).runModule stmts) s = .ok result t ↔
          ∃ outcomes v,
            Handled (host.machine n) u.context.stack.root.defers
              { u.takeRoot.withFlow .normal with held := held } outcomes v ∧
            (result, t) = exported (settled r (firstError outcomes))
              { v.resume u.context with held := u.held } := by
  rcases runDefers_handled (m := host.machine n) (Machine.raisedValues r) u.context.stack.root.defers
    u.takeRoot with ⟨held, hhandled⟩
  refine ⟨held, ?_⟩
  intro result t
  have hcapture : Run.capture ((host.machine (n + 1)).runModule stmts) s =
      Run.capture ((host.machine n).runDefers (Machine.raisedValues r) u.context.stack.root.defers >>=
        Machine.settle r >>= fun _ => do
          let exports ← Run.exports
          Run.setRetVal (.object exports)
          return .object exports) u.takeRoot := by
    unfold Run.capture
    rw [runModule_captured h]
    rfl
  rw [hcapture, capture_exported]
  constructor
  . intro ⟨r', w, hr', hresult⟩
    rcases (capture_settle (Machine.runDefers_ne_raised _ _ _ _)).mp hr' with ⟨first, hfirst, hr'⟩
    rcases (hhandled first w).mp hfirst with ⟨outcomes, v, hv, hw, houtcomes⟩
    rw [hr', houtcomes, hw] at hresult
    exact ⟨outcomes, v, hv, hresult⟩
  . intro ⟨outcomes, v, hv, hresult⟩
    refine ⟨_, _, ?_, hresult⟩
    apply (capture_settle (Machine.runDefers_ne_raised _ _ _ _)).mpr
    exact ⟨_, (hhandled _ _).mpr ⟨outcomes, v, hv, rfl, rfl⟩, rfl⟩

/-- Calls that leave the frames alone leave them alone together. -/
theorem Handled.stack {m : Machine} (hm : m.Respects Context.FramesKept) {calls : List Deferred}
    {s t : State} {outcomes : List (Option Error)} (h : Handled m calls s outcomes t)
    : t.context.stack = s.context.stack := by
  induction h with
  | done s => rfl
  | called _ _ hcall _ ih =>
    have hends := Run.ends_capture (.ok hcall)
    have hkept := makeCall_leaves framesKept_discipline hm _ _ _ _ hends
    exact ih.trans hkept.1
  | skipped _ _ _ ih => exact ih
  | refused _ _ _ ih => exact ih

theorem exported_stack {r : Except Error Unit} {s t : State} {result : Except Error Value}
    (h : (result, t) = exported r s)
    : t.context.stack = s.context.stack := by
  unfold exported at h
  split at h
  . injection h with _ h
    rw [h]
  . injection h with _ h
    rw [h]
    rfl

/-- No calls are left for the end of a module that has ended, if the host puts off none. -/
theorem runModule_root {host : Host} (hhost : host.KeepsFrames) {n : Nat} {stmts : List Stmt} {s t : State}
    {result : Except Error Value}
    (h : Run.capture ((host.machine (n + 1)).runModule stmts) s = .ok result t)
    : t.context.stack.root.defers = [] := by
  have hends : ((host.machine (n + 1)).runModule stmts).Ends s t := Run.ends_capture (.ok h)
  rcases Run.ends_capture_bind hends with ⟨r, u, hu, _, _⟩
  rcases runModule_handled host n hu with ⟨held, hmodule⟩
  rcases (hmodule result t).mp h with ⟨outcomes, v, hhandled, hresult⟩
  have hkept := hhandled.stack (machine_respects framesKept_discipline hhost n)
  have hstack := exported_stack hresult
  rw [hstack]
  show v.context.stack.root.defers = []
  rw [hkept]
  show u.context.stack.takeRootDefers.2.root.defers = []
  rw [Stack.takeRootDefers_root]

/--
Calls that are put off. They are put in front of those from before, and when the frame is left or the
module ends, every one of them is handled once from the front on, whatever happened before. The first
error counts, and the signal and the value of the statement are those from before the calls. The
list of the module is emptied before its calls are handled, so it stays empty if they add nothing.
-/
theorem deferred_calls_run_once (host : Host) (n : Nat)
    : let m := host.machine (n + 1)
      (∀ (s : State) (callee : Value) (args : List Value) (isOptional : Bool),
        let frame := s.context.stack.top
        ∃ t, Run.addBlockDefer callee args isOptional s = .ok () t ∧
          t.context.stack.frames =
            { frame with defers := ⟨callee, args, isOptional⟩ :: frame.defers } :: s.context.stack.below) ∧
      (∀ (s : State) (callee : Value) (args : List Value) (blocks below : List Frame) (frame : Frame),
        s.context.stack.frames = blocks ++ frame :: below →
        (∀ block ∈ blocks, block.kind.isBoundary = false) → frame.kind.isBoundary = true →
        ∃ t, Run.addDefer callee args s = .ok () t ∧
          t.context.stack.frames =
            blocks ++ { frame with defers := ⟨callee, args, false⟩ :: frame.defers } :: below) ∧
      (∀ (α : Type) (kind : FrameKind) (scope : ScopeRef) (body : Run α) (s u : State) (r : Except Error α),
        Run.capture body (s.enter kind scope) = .ok r u →
        ∃ held, ∀ result t, Run.capture (m.withFrame kind scope body) s = .ok result t ↔
          ∃ outcomes v,
            Handled (host.machine n) u.context.stack.top.defers
              { u.leave.withFlow .normal with held := held } outcomes v ∧
            t = { v.resume u.context with held := u.held } ∧ result = settled r (firstError outcomes)) ∧
      (∀ (stmts : List Stmt) (s u : State) (r : Except Error Unit),
        Run.capture (do m.execAll stmts; Run.finishFlow) s = .ok r u →
        u.takeRoot.context.stack.root = { u.context.stack.root with defers := [] } ∧
        ∃ held, ∀ result t, Run.capture (m.runModule stmts) s = .ok result t ↔
          ∃ outcomes v,
            Handled (host.machine n) u.context.stack.root.defers
              { u.takeRoot.withFlow .normal with held := held } outcomes v ∧
            (result, t) = exported (settled r (firstError outcomes))
              { v.resume u.context with held := u.held }) ∧
      (host.KeepsFrames → ∀ stmts s result t, Run.capture (m.runModule stmts) s = .ok result t →
        t.context.stack.root.defers = []) := by
  intro m
  refine ⟨?_, ?_, ?_, ?_, ?_⟩
  . intro s callee args isOptional
    exact ⟨_, rfl, rfl⟩
  . intro s callee args blocks below frame hs hblocks hframe
    refine ⟨s.withContext _, rfl, ?_⟩
    show (s.context.stack.addDefer ⟨callee, args, false⟩).frames = _
    unfold Stack.addDefer
    rw [hs, Stack.addDefer_registers _ hblocks hframe]
    cases blocks <;> rfl
  . intro α kind scope body s u r h
    exact withFrame_handled host n h
  . intro stmts s u r h
    refine ⟨?_, runModule_handled host n h⟩
    exact Stack.takeRootDefers_root u.context.stack
  . intro hhost stmts s result t h
    exact runModule_root hhost h

/-- How a computation ends: the cause of its error, and how many calls are put off until the module ends. -/
def Run.endsAtRoot {α : Type} (x : Run α) (s : State) : Option (Option Cause × Nat) :=
  match capture x s with
  | .ok r t => some ((Machine.failure r).map Error.cause, t.context.stack.root.defers.length)
  | .error _ _ => none

theorem Run.capture_of_endsAtRoot {α : Type} {x : Run α} {s : State} {cause : Option Cause} {left : Nat}
    (h : x.endsAtRoot s = some (cause, left))
    : ∃ r t, capture x s = .ok r t ∧ (Machine.failure r).map Error.cause = cause ∧
        t.context.stack.root.defers.length = left := by
  unfold endsAtRoot at h
  split at h
  . next r t hr =>
    injection h with h
    injection h with hcause hleft
    exact ⟨r, t, hr, hcause, hleft⟩
  . injection h

/-- The state in which the host has made one function. -/
def State.withNative (native : Native) (s : State) : State :=
  { s with heap := { s.heap with natives := #[native] } }

/--
A block that is left with a signal, where the call that runs first fails and one that is not optional cannot be made at
all, and a module in which the second of three calls is the first to fail.
-/
theorem scripted_deferred_calls
    : let host := Host.scripted fun _ => some []
      let m := host.machine 8
      let s := (Engine.bareState {} .silent 0).withNative ⟨"call", [], .host ⟨"call", []⟩⟩
      let caller := Value.native ⟨0⟩
      let calls : List Deferred :=
        [⟨caller, [.int 1], false⟩, ⟨.undefined, [], true⟩, ⟨caller, [caller], false⟩, ⟨.nil, [], false⟩,
          ⟨caller, [.str "text"], false⟩, ⟨caller, [], false⟩]
      let outcomes : List (Option Error) :=
        [some (.ofCause (.notCallable "Int")), none, none, some (s.located (.ofCause .deferNotCallable)),
          some (.ofCause (.notCallable "Str")), none]
      let body : Run Unit := do
        calls.reverse.forM fun call => Run.addBlockDefer call.callee call.args call.isOptional
        Run.setFlow .ret
      let u := Engine.stateAfter body (s.enter .block ⟨0⟩)
      let named := Engine.stateAfter (Run.setGlobal "call" caller) s
      let call (arg : Expr) : Stmt := .mk .unknown (.defer (.mk (.ident "call") [.positional arg] false))
      let stmts := [call (.int 1), call (.str "text"), call (.ident "call")]
      host.KeepsFrames ∧ Run.capture body (s.enter .block ⟨0⟩) = .ok (.ok ()) u ∧
        u.context.stack.top.defers = calls ∧
        (∃ held, Handled (host.machine 7) calls { u.leave.withFlow .normal with held := held } outcomes
            { s with held := held } ∧
          Run.capture (m.withFrame .block ⟨0⟩ body) s =
            .ok (.error (.ofCause (.notCallable "Int"))) (s.withFlow .ret)) ∧
        (m.execAll stmts).endsAtRoot named = some (none, 3) ∧
        ∃ r t, Run.capture (m.runModule stmts) named = .ok r t ∧
          (Machine.failure r).map Error.cause = some (.notCallable "Str") ∧ t.context.stack.root.defers = [] := by
  intro host m s caller calls outcomes body u named call stmts
  have hframes : host.KeepsFrames := scripted_respects framesKept_discipline
  have hbody : Run.capture body (s.enter .block ⟨0⟩) = .ok (.ok ()) u := rfl
  have hu : u.leave.withFlow .normal = s := rfl
  have hstmts : (m.execAll stmts).endsAtRoot named = some (none, 3) := by decide +kernel
  have hends : (m.runModule stmts).endsAtRoot named = some (some (.notCallable "Str"), 0) := by decide +kernel
  have h := deferred_calls_run_once host 7
  refine ⟨hframes, hbody, rfl, ?_, hstmts, ?_⟩
  . rcases h.2.2.1 Unit .block ⟨0⟩ body s u (.ok ()) hbody with ⟨held, hframe⟩
    rw [hu] at hframe ⊢
    let w : State := { s with held := held }
    have hhandled : Handled (host.machine 7) calls w outcomes w := by
      apply Handled.called (r := .error (.ofCause (.notCallable "Int"))) (u := w) rfl rfl rfl
      apply Handled.skipped rfl rfl
      apply Handled.called (r := .ok .undefined) (u := w) rfl rfl rfl
      apply Handled.refused rfl rfl
      apply Handled.called (r := .error (.ofCause (.notCallable "Str"))) (u := w) rfl rfl rfl
      apply Handled.called (r := .ok .undefined) (u := w) rfl rfl rfl
      exact .done w
    exact ⟨held, hhandled, (hframe _ _).mpr ⟨outcomes, w, hhandled, rfl, rfl⟩⟩
  . rcases Run.capture_of_endsAtRoot hends with ⟨r, t, hmodule, hcause, _⟩
    exact ⟨r, t, hmodule, hcause, h.2.2.2.2 hframes stmts named r t hmodule⟩

/-- A host whose function puts a call of its first argument off until its caller ends. -/
def Host.registering : Host where
  native _ _ _ args := do
    match args with
    | [] => return .undefined
    | callee :: args =>
      Run.addDefer callee args
      return .undefined
  importer := Option.none

/-- A call of the host's function that is put off until the module ends puts another one off. -/
theorem root_calls_may_be_left
    : ¬∀ (host : Host) (n : Nat) (stmts : List Stmt) (s : State) (result : Except Error Value) (t : State),
        Run.capture ((host.machine n).runModule stmts) s = .ok result t →
        t.context.stack.root.defers = [] := by
  intro hempty
  let register : Run Unit := do
    Run.setGlobal "register" (← Run.newHostFunction "register" ⟨"register", []⟩)
  let s := Engine.stateAfter register (Engine.bareState {} .silent 0)
  let call : Call := .mk (.ident "register") [.positional (.ident "register")] false
  let stmts : List Stmt := [.mk .unknown (.defer call)]
  have hends : ((Host.registering.machine 6).runModule stmts).endsAtRoot s = some (none, 1) := by decide +kernel
  rcases Run.capture_of_endsAtRoot hends with ⟨r, t, hmodule, _, hleft⟩
  rw [hempty _ _ _ _ _ _ hmodule] at hleft
  injection hleft

end ScriptEngine
