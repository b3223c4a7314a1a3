import ScriptEngine.Eval.Stmt
import ScriptEngine.Proofs.Frame

/-!
This module contains what `try`, `fallback` and `??` do, written out: which of the two ends of a body
and of what runs after it counts.
-/

namespace ScriptEngine

namespace Machine

variable {m : Machine}

/-- A handler gets the error and the state that the body left. -/
theorem execGuarded_handled {body : Run Unit} {name : String} {stmts : List Stmt} {s t : State}
    {e : Error} (h : body s = .error (.raised e) t) (he : e.isFatal = false)
    : m.execGuarded body (some (.mk name stmts)) s = m.handleWith name e stmts t := by
  unfold execGuarded
  rw [Run.bind_ok (Run.capture_raised h)]
  dsimp only
  rw [if_neg]
  rw [he]
  nofun

/-- An error that is fatal, or that there is no handler for, stays. -/
theorem execGuarded_raised {body : Run Unit} {handler : Option Handler} {s t : State} {e : Error}
    (h : body s = .error (.raised e) t) (he : e.isFatal = true ∨ handler = none)
    : m.execGuarded body handler s = .error (.raised e) t := by
  unfold execGuarded
  rw [Run.bind_ok (Run.capture_raised h)]
  cases handler with
  | none => rfl
  | some handler =>
    cases handler with
    | mk name stmts =>
      dsimp only
      rw [if_pos]
      . rfl
      . rcases he with he | he
        . exact he
        . injection he

/-- The right side of `??` does not run after a fatal error of the left side. -/
theorem evalCoalesce_raised {left right : Expr} {s t : State} {e : Error}
    (h : m.eval left s = .error (.raised e) t) (he : e.isFatal = true)
    : m.evalCoalesce left right s = .error (.raised e) t := by
  unfold evalCoalesce
  rw [Run.bind_ok (Run.capture_raised h)]
  dsimp only
  rw [if_pos he]
  rfl

/--
Every cleanup starts in the same state, without the signal of the body, which comes back if the cleanup
leaves none.
-/
theorem execAttempt_cleanups (m : Machine) {body : List Stmt} {handler : Option Handler} {s t : State}
    {r : Except Error Unit}
    (h : Run.capture (Run.lettingGo (m.execGuarded (m.execBlock body) handler)) s = .ok r t)
    : ∃ held, ∀ cleanup, m.execAttempt body handler (some cleanup) s =
        (m.execBlock cleanup >>= fun _ => do
          if (← Run.flow).isNormal then
            Run.setFlow t.context.flow
            Run.setRetVal t.context.retVal
            Run.ofCaptured r) { t.withFlow .normal with held := held } := by
  rcases Run.hold_apply t.context.retVal (t.withFlow .normal) with ⟨held, hvalue⟩
  rcases Run.holdAll_apply (raisedValues r) { t.withFlow .normal with held := held } with ⟨held', hraised⟩
  have hretVal : Run.retVal t = .ok t.context.retVal t := rfl
  have hflow : Run.takeFlow t = .ok t.context.flow (t.withFlow .normal) := rfl
  refine ⟨held', fun cleanup => ?_⟩
  unfold execAttempt
  rw [Run.bind_ok h]
  dsimp only
  unfold cleanUp
  rw [Run.bind_ok hretVal, Run.bind_ok hflow, Run.bind_ok hvalue, Run.bind_ok hraised]

/-- The cleanup starts without the signal of the body, which comes back if the cleanup leaves none. -/
theorem execAttempt_some (m : Machine) (cleanup : List Stmt) {body : List Stmt} {handler : Option Handler}
    {s t : State} {r : Except Error Unit}
    (h : Run.capture (Run.lettingGo (m.execGuarded (m.execBlock body) handler)) s = .ok r t)
    : ∃ held, m.execAttempt body handler (some cleanup) s =
        (m.execBlock cleanup >>= fun _ => do
          if (← Run.flow).isNormal then
            Run.setFlow t.context.flow
            Run.setRetVal t.context.retVal
            Run.ofCaptured r) { t.withFlow .normal with held := held } := by
  rcases m.execAttempt_cleanups h with ⟨held, hattempt⟩
  exact ⟨held, hattempt cleanup⟩

end Machine

end ScriptEngine
