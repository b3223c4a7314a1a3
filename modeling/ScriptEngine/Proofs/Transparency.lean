import ScriptEngine.Proofs.Fatal
import ScriptEngine.Proofs.Signals

/-!
This module contains what the evaluation of an expression leaves of the statement that it stands in:
the pending signal and the value of the last statement are the same after it, whatever functions,
hooks and calls that were put off have run.
-/

namespace ScriptEngine

namespace Run

variable {α : Type}

/-- However a computation ends, the signal and the value of the statement are those from before it. -/
def Transparent (x : Run α) : Prop :=
  ∀ s t, x.Ends s t → t.context.flow = s.context.flow ∧ t.context.retVal = s.context.retVal

theorem Leaves.transparent {l : Level} {x : Run α} (hx : x.Leaves (Context.FlowKept l)) (hl : l ≠ .stmt)
    : x.Transparent := by
  intro s t h
  exact hx s t h hl

end Run

theorem Parallel.transparent {α : Type} {m : Machine} (hm : m.Respects Context.FlowKept) {x : Run α}
    (h : Parallel m m .call x x)
    : x.Transparent :=
  (h.leavesAlone flowKept_discipline hm).transparent nofun

/-- Expressions, calls and operations on values leave the state of the statement that they serve. -/
theorem expressions_keep_statement_state (host : Host) (hflow : host.KeepsFlow) (n : Nat)
    : let m := host.machine n
      (∀ e, (m.eval e).Transparent) ∧
      (∀ callee this args, (m.invoke callee this args).Transparent) ∧
      (∀ type args, (m.construct type args).Transparent) ∧
      (∀ owner name, (m.getMember owner name).Transparent) ∧
      (∀ owner index, (m.getIndex owner index).Transparent) ∧
      (∀ value, (m.stringify value).Transparent) ∧
      (∀ value, (m.isTruthy value).Transparent) ∧
      (∀ op left right, (m.compareOp op left right).Transparent) ∧
      (∀ op left right, (m.binaryValues op left right).Transparent) := by
  intro m
  have hm : m.Respects Context.FlowKept := machine_respects flowKept_discipline hflow n
  refine ⟨?_, ?_, ?_, ?_, ?_, ?_, ?_, ?_, ?_⟩
  . intro e
    exact (hm.eval e).transparent nofun
  . intro callee this args
    exact (hm.invoke callee this args).transparent nofun
  . intro type args
    exact (Parallel.construct type args).transparent hm
  . intro owner name
    exact (Parallel.getMember owner name).transparent hm
  . intro owner index
    exact (Parallel.getIndex owner index).transparent hm
  . intro value
    exact (Parallel.stringify value).transparent hm
  . intro value
    exact (Parallel.isTruthy value).transparent hm
  . intro op left right
    exact (Parallel.compareOp op left right).transparent hm
  . intro op left right
    exact (Parallel.binaryValues op left right).transparent hm

/-- A function with a loop, a `return` in it and a call that is put off and fails, called under a signal. -/
theorem scripted_call_keeps_statement_state
    : let host := Host.scripted fun _ => some []
      let m := host.machine 10
      let failing : FuncDef := .mk none [] false [.mk .unknown (.throw (.str "cleanup"))]
      let loop := Stmt.mk .unknown (.whileDo none (.bool true) [.mk .unknown (.ret (some (.int 7)))])
      let body := [.mk .unknown (.defer (.mk (.func failing) [] false)), loop]
      let call := Expr.call (.mk (.func (.mk none [] false body)) [] false)
      let s := ((Engine.bareState {} .silent 0).withFlow (.jump .breakLoop (some "outer"))).withRetVal (.int 5)
      host.KeepsFlow ∧ ∃ e t, m.eval call s = .error (.raised e) t ∧ e.cause = .thrown ∧
        t.context.flow = .jump .breakLoop (some "outer") ∧ t.context.retVal = .int 5 := by
  intro host m failing loop body call s
  have hflow : host.KeepsFlow := scripted_respects flowKept_discipline
  have hcause : (m.eval call).cause? s = some .thrown := by decide +kernel
  rcases Run.raised_of_cause hcause with ⟨e, t, h, he⟩
  have hkept := (expressions_keep_statement_state host hflow 10).1 call s t (.raised h)
  exact ⟨hflow, e, t, h, he, hkept.1, hkept.2⟩

end ScriptEngine
