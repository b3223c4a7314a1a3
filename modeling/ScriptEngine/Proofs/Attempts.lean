import ScriptEngine.Proofs.Frames
import ScriptEngine.Proofs.Statements

/-!
This module contains how `try` ends with a cleanup, compared with the same statement without it. The cleanup
runs once when the body and the handler are done, and nothing of it is seen afterwards unless it fails or
leaves a signal.
-/

namespace ScriptEngine

namespace Stack

/-- The backtrace does not depend on the calls that are put off. -/
theorem BoundaryGrown.backtrace {as bs : List Frame} (h : BoundaryGrown as bs) (pending : Option Position)
    : backtrace.go pending bs = backtrace.go pending as := by
  induction h generalizing pending with
  | nil => rfl
  | boundary _ hgrown =>
    unfold backtrace.go
    rw [hgrown.kind, hgrown.position]
  | block _ _ ih =>
    unfold backtrace.go
    simp only [ih]

/-- What a statement in a block does to the frames around the block. -/
theorem Kept.pop_frames {s t : Stack} {frame : Frame} (h : (s.push frame).Kept .stmt t)
    : BoundaryGrown s.frames t.pop.frames := by
  have hbelow : BoundaryGrown s.frames t.below := h.below
  unfold Stack.pop
  split
  . next hempty =>
    rw [hempty] at hbelow
    exact nomatch hbelow
  . next top below hframes =>
    rw [hframes] at hbelow
    exact hbelow

end Stack

/-- Frames that differ in nothing but the calls that are put off locate errors alike. -/
theorem State.located_congr {s t : State}
    (h : Stack.BoundaryGrown s.context.stack.frames t.context.stack.frames) (e : Error)
    : t.located e = s.located e := by
  have htop : t.context.stack.top.position = s.context.stack.top.position := by
    have hpositions := h.maps Frame.position fun f g hgrown => hgrown.position
    unfold Stack.frames at hpositions
    injection hpositions
  unfold located Stack.backtrace
  rw [htop, h.backtrace]

section Blocks

variable {m : Machine} {s t : State}

/-- A block leaves the frames around it, apart from the calls that are put off in them. -/
theorem execBlock_frames (hm : m.Respects Context.FramesKept) {stmts : List Stmt}
    (h : (m.execBlock stmts).Ends s t)
    : Stack.BoundaryGrown s.context.stack.frames t.context.stack.frames := by
  have hscope : Run.currentScope s = .ok s.scope s := rfl
  have halloc : Run.alloc (·.newScope (some s.scope)) s =
      .ok (s.heap.newScope (some s.scope)).1 { s with heap := (s.heap.newScope (some s.scope)).2 } := rfl
  unfold Machine.execBlock Machine.withBlock at h
  have hframe := h.congr ((Run.bind_ok hscope).trans (Run.bind_ok halloc))
  rcases Machine.ends_withFrame hframe with ⟨u, raised, calls, hbody, hrelease⟩
  have hkept : (s.context.enter .block _).stack.Kept .stmt u.context.stack :=
    (Parallel.leavesAlone framesKept_discipline hm (l := .stmt) (.execAll stmts) _ _ hbody).1
  have hsame : t.context.stack = u.leave.context.stack := (hm.release raised calls _ _ hrelease).1
  rw [hsame]
  exact hkept.pop_frames

/-- Without a cleanup, a `try` ends as its body and its handler do. -/
theorem execAttempt_none (m : Machine) (body : List Stmt) (handler : Option Handler)
    : m.execAttempt body handler none = Run.lettingGo (m.execGuarded (m.execBlock body) handler) := by
  funext s
  unfold Machine.execAttempt
  rw [Run.bind_apply]
  unfold Run.capture
  cases Run.lettingGo (m.execGuarded (m.execBlock body) handler) s with
  | ok _ t => rfl
  | error halt t => cases halt <;> rfl

/-- What is left of a `try` once its cleanup has ended. -/
def Machine.afterCleanup (flow : Flow) (retVal : Value) (r : Except Error Unit) : Run Unit := do
  if (← Run.flow).isNormal then
    Run.setFlow flow
    Run.setRetVal retVal
    Run.ofCaptured r

/-- How a `try` ends, given how its cleanup does. -/
def Machine.cleanedUp (flow : Flow) (retVal : Value) (r : Except Error Unit) (result : EStateM.Result Halt State Unit)
    : EStateM.Result Halt State Unit :=
  match result with
  | .ok _ v => afterCleanup flow retVal r v
  | .error halt v => .error halt v

theorem afterCleanup_normal {r : Except Error Unit} {v : State} (hv : v.context.flow = .normal) (c : Context)
    : Machine.afterCleanup c.flow c.retVal r v = Run.ofCaptured r (v.resume c) := by
  unfold Machine.afterCleanup
  rw [Run.bind_ok (rfl : Run.flow v = .ok v.context.flow v), hv]
  rfl

theorem afterCleanup_signal {r : Except Error Unit} {v : State} (hv : v.context.flow ≠ .normal) (c : Context)
    : Machine.afterCleanup c.flow c.retVal r v = .ok () v := by
  have hnormal : v.context.flow.isNormal = false := by
    rw [Bool.eq_false_iff]
    intro h
    exact hv (Run.isNormal_eq _ h)
  unfold Machine.afterCleanup
  rw [Run.bind_ok (rfl : Run.flow v = .ok v.context.flow v), hnormal]
  rfl

end Blocks

/--
A cleanup and what it leaves of the statement. Where a `try` ends without it, with `r` in the state `t`, the
cleanup runs once from there on, without a signal. If it ends normally the statement ends as it does without
the cleanup, and unless that was a fatal error a signal or an error of the cleanup counts instead.
-/
theorem cleanup_is_transparent (host : Host) (hframes : host.KeepsFrames) (n : Nat) (pos : Position)
    (body : List Stmt) (handler : Option Handler) (s : State)
    : let m := host.machine n
      let attempt cleanup := (host.machine (n + 1)).exec (.mk pos (.attempt body handler cleanup))
      (∀ r t, Run.capture (attempt none) s = .ok r t →
        ∃ held, let start := { t.withFlow .normal with held := held }
          (∃ ending : EStateM.Result Halt State Unit → EStateM.Result Halt State Unit,
            ∀ cleanup, attempt (some cleanup) s = ending (m.execBlock cleanup start)) ∧
          (∀ cleanup v, m.execBlock cleanup start = .ok () v → v.context.flow = .normal →
            Run.capture (attempt (some cleanup)) s = .ok r { v.resume t.context with held := s.held }) ∧
          ((∀ e, r = .error e → e.isFatal = false) →
            (∀ cleanup v, m.execBlock cleanup start = .ok () v → v.context.flow ≠ .normal →
              attempt (some cleanup) s = .ok () { v with held := s.held }) ∧
            (∀ cleanup e v, m.execBlock cleanup start = .error (.raised e) v →
              attempt (some cleanup) s = .error (.raised (v.located e)) { v with held := s.held }))) ∧
      (∀ halt t, (∀ e, halt ≠ .raised e) → attempt none s = .error halt t →
        ∀ cleanup, attempt (some cleanup) s = .error halt t) := by
  intro m attempt
  have hm : m.Respects Context.FramesKept := machine_respects framesKept_discipline hframes n
  let guarded := Run.lettingGo (m.execGuarded (m.execBlock body) handler)
  have hnone : attempt none s = Run.lettingGo (Run.locating guarded) (s.atPosition pos) := by
    unfold attempt
    rw [exec_kind, Machine.execKind, execAttempt_none]
  have hsome (cleanup : List Stmt)
      : attempt (some cleanup) s =
          Run.lettingGo (Run.locating (m.execAttempt body handler (some cleanup))) (s.atPosition pos) :=
    exec_kind host n pos (.attempt body handler (some cleanup)) s
  refine ⟨?_, ?_⟩
  . intro r t h
    have hcapture : Run.capture (Run.lettingGo (Run.locating guarded)) (s.atPosition pos) = .ok r t := by
      unfold Run.capture at h ⊢
      rw [← hnone]
      exact h
    rcases captured_statement hcapture with ⟨r', u, hguarded, hr, ht⟩
    rcases m.execAttempt_cleanups hguarded with ⟨held, hcleanups⟩
    have hattempt (cleanup : List Stmt)
        : m.execAttempt body handler (some cleanup) (s.atPosition pos) =
            (m.execBlock cleanup >>= fun _ => Machine.afterCleanup t.context.flow t.context.retVal r')
              { t.withFlow .normal with held := held } := by
      rw [hcleanups cleanup, ht]
      rfl
    have hgrown {cleanup : List Stmt} {v : State}
        (hv : (m.execBlock cleanup).Ends { t.withFlow .normal with held := held } v)
        : Stack.BoundaryGrown u.context.stack.frames v.context.stack.frames := by
      have hstack : u.context.stack = t.context.stack := by rw [ht]
      rw [hstack]
      exact execBlock_frames (s := { t.withFlow .normal with held := held }) hm hv
    refine ⟨held, ⟨fun result => (s.atPosition pos).ending
      (Machine.cleanedUp t.context.flow t.context.retVal r' result), ?_⟩, ?_, ?_⟩
    . intro cleanup
      rw [hsome, lettingGo_locating, hattempt, Run.bind_apply]
      cases m.execBlock cleanup { t.withFlow .normal with held := held } <;> rfl
    . intro cleanup v hv hflow
      have hends : m.execAttempt body handler (some cleanup) (s.atPosition pos) =
          Run.ofCaptured r' (v.resume t.context) := by
        rw [hattempt, Run.bind_ok hv, afterCleanup_normal hflow]
      have hlocated : (v.resume t.context).located = u.located :=
        funext (State.located_congr (t := v.resume t.context) (hgrown (v := v) (.ok hv)))
      unfold Run.capture
      rw [hsome, hr, ← hlocated]
      exact capture_statement hends
    . intro _
      refine ⟨?_, ?_⟩
      . intro cleanup v hv hflow
        rw [hsome, lettingGo_locating, hattempt, Run.bind_ok hv, afterCleanup_signal hflow]
        rfl
      . intro cleanup e v hv
        rw [hsome, lettingGo_locating, hattempt, Run.bind_error hv]
        rfl
  . intro halt t hhalt h cleanup
    rw [hnone] at h
    rcases halted_statement hhalt h with ⟨u, hguarded, ht⟩
    have hattempt : m.execAttempt body handler (some cleanup) (s.atPosition pos) = .error halt u := by
      unfold Machine.execAttempt
      rw [Run.bind_error (Run.capture_halted hguarded hhalt)]
    rw [hsome, lettingGo_locating, hattempt, ht]
    cases halt with
    | raised e => exact absurd rfl (hhalt e)
    | exhausted => rfl
    | died => rfl

/-- A body that returns, with a cleanup that ends normally and with one that leaves the loop around it. -/
theorem scripted_cleanup_is_transparent
    : let host := Host.scripted fun _ => some []
      let s := Engine.bareState {} .silent 0
      let attempt cleanup := (host.machine 9).exec
        (.mk .unknown (.attempt [Stmt.ofKind (.ret (some (.int 7)))] none cleanup))
      let t := Engine.stateAfter (attempt none) s
      host.KeepsFrames ∧ Run.capture (attempt none) s = .ok (.ok ()) t ∧ t.context.flow = .ret ∧
        (∃ v : State, Run.capture (attempt (some [])) s = .ok (.ok ()) { v.resume t.context with held := s.held }) ∧
        ∃ v : State, v.context.flow = .jump .breakLoop none ∧
          attempt (some [Stmt.ofKind (.breakLoop none)]) s = .ok () { v with held := s.held } := by
  intro host s attempt t
  have hframes : host.KeepsFrames := scripted_respects framesKept_discipline
  have hnone : Run.capture (attempt none) s = .ok (.ok ()) t := rfl
  rcases (cleanup_is_transparent host hframes 8 .unknown [Stmt.ofKind (.ret (some (.int 7)))] none s).1
    (.ok ()) t hnone with ⟨held, _, hnormal, hsignal⟩
  refine ⟨hframes, hnone, rfl, ?_, ?_⟩
  . exact ⟨_, hnormal [] _ rfl rfl⟩
  . have hleft := (hsignal fun _ h => nomatch h).1 [Stmt.ofKind (.breakLoop none)] _ rfl
    exact ⟨_, rfl, hleft fun h => nomatch h⟩

-- The error of the body is discarded with the signal of the cleanup.
example :
    let cleanup := Stmt.ofKind (.ret (some (.int 1)))
    let stmt := Stmt.ofKind (.attempt [Stmt.ofKind (.throw (.str "failed"))] none (some [cleanup]))
    ((Host.none.machine 9).exec stmt).signal? (Engine.bareState {} .silent 0) = some .ret := by
  decide +kernel

end ScriptEngine
