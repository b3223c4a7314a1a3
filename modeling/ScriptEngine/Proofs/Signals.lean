import ScriptEngine.Engine.Setup
import ScriptEngine.Proofs.Orderly

/-!
This module contains how errors and signals meet. A statement that raises an error leaves no signal
behind, with one exception: a block that is left with a signal while one of the calls put off in it
fails. A machine that gives up at this point shows that there is no other.
-/

namespace ScriptEngine

/-- Gives up if an error is reported while a signal is pending. -/
def Run.strict (x : Run (Option Error)) : Run (Option Error) := fun s =>
  match x s with
  | .ok (some e) t => if s.context.flow.isNormal then .ok (some e) t else .error .exhausted t
  | r => r

/-- The machine that gives up if a call put off in a block fails while the block is left with a signal. -/
def Machine.strict (m : Machine) : Machine :=
  { m with release := fun raised calls => (m.release raised calls).strict }

/-- The functions and the importer of a host leave the signal and the value of the statement alone. -/
def Host.KeepsFlow (host : Host) : Prop := host.Respects Context.FlowKept

/-- The functions and the importer of a host do the same over a machine that gives up, or give up. -/
def Host.GivesUp (host : Host) : Prop := host.Follows False True

theorem strict_cases (x : Run (Option Error)) (s : State)
    : x.strict s = x s ∨ ∃ t, x.strict s = .error .exhausted t := by
  unfold Run.strict
  cases x s with
  | error halt t => exact .inl rfl
  | ok first t =>
    cases first with
    | none => exact .inl rfl
    | some e =>
      dsimp only
      split
      . exact .inl rfl
      . exact .inr ⟨t, rfl⟩

theorem strict_some {x : Run (Option Error)} {s t : State} {e : Error} (h : x.strict s = .ok (some e) t)
    : s.context.flow = .normal := by
  unfold Run.strict at h
  split at h
  . split at h
    . next hnormal => exact Run.isNormal_eq _ hnormal
    . injection h
  . next hsome => exact absurd h (hsome e t)

theorem strict_ends {x : Run (Option Error)} {s t : State} (h : x.strict.Ends s t) : x.Ends s t := by
  rcases strict_cases x s with hsame | ⟨u, hgave⟩
  . exact h.congr hsame
  . unfold Run.Ends at h
    rw [hgave] at h
    rcases h with ⟨a, h⟩ | ⟨e, h⟩
    . injection h
    . injection h with h
      injection h

theorem Run.Follows.strict {L : Prop} {k : Nat} {x x' : Run (Option Error)} (hx : Follows L True k x x')
    : Follows L True k x x'.strict := by
  intro s hs
  rcases strict_cases x' s with hsame | hgave
  . rw [hsame]
    exact hx s hs
  . exact .inr ⟨trivial, hgave⟩

theorem strict_respects {R : Level → Context → Context → Prop} {m : Machine} (hm : m.Respects R)
    : m.strict.Respects R where
  eval := hm.eval
  exec := hm.exec
  invoke := hm.invoke
  release raised calls s t h := hm.release raised calls s t (strict_ends h)
  spawn := hm.spawn
  native := hm.native
  importer := hm.importer

theorem strict_follows {L : Prop} {m m' : Machine} (hm : m.Follows L True m')
    : m.Follows L True m'.strict := by
  constructor
  case fuel => exact hm.fuel
  case eval => exact hm.eval
  case exec => exact hm.exec
  case invoke => exact hm.invoke
  case spawn => exact hm.spawn
  case native => exact hm.native
  case loadModule => exact hm.loadModule
  case release => exact fun raised calls => (hm.release raised calls).strict

/-- Where a machine gives up at errors that meet a signal, no error does. -/
theorem strict_orderly {host : Host} (hhost : host.KeepsFlow) (n : Nat)
    : (host.checking Machine.strict n).Orderly := by
  induction n with
  | zero =>
    constructor
    case kept => exact spent_respects
    case exec => exact fun stmt => Run.exhausted_orderly
    case release =>
      intro raised calls s t e h
      injection h
    case release_ne_raised =>
      intro raised calls s t e h
      injection h with h
      injection h
  | succ n ih =>
    let m := host.above n (host.checking Machine.strict n)
    have hm : m.Respects Context.FlowKept := above_respects flowKept_discipline hhost n ih.kept
    constructor
    case kept => exact strict_respects hm
    case exec =>
      intro stmt
      show (m.exec stmt).Orderly
      rw [above_exec]
      exact (execStmt_orderly ih stmt).lettingGo
    case release =>
      intro raised calls s t e h
      exact strict_some h
    case release_ne_raised =>
      intro raised calls s t e h
      rcases strict_cases (m.release raised calls) s with hsame | ⟨u, hgave⟩
      . exact Machine.runDefers_ne_raised _ raised calls s t e (hsame.symm.trans h)
      . have h := hgave.symm.trans h
        injection h with h
        injection h

/--
An error of `x` leaves no signal, unless `x'` gives up because a call that was put off in a block fails
while the block is left with a signal.
-/
def LeavesNoSignal {α : Type} (x x' : Run α) (s : State) : Prop :=
  ∀ e t, x s = .error (.raised e) t → t.context.flow = .normal ∨ ∃ u, x' s = .error .exhausted u

theorem leavesNoSignal {α : Type} {x x' : Run α} (hx : Run.Follows False True 0 x x') (hx' : x'.Orderly)
    {s : State} (hs : s.context.flow = .normal)
    : LeavesNoSignal x x' s := by
  intro e t h
  rcases hx s nofun with ⟨heq, _⟩ | ⟨_, hgave⟩
  . left
    rw [← heq] at h
    exact hx' s t e hs h
  . exact .inr hgave

/-- A frame fails with a signal left if and only if a call that was put off fails under that signal. -/
theorem withFrame_signal_iff {α : Type} {m : Machine} (hm : m.Respects Context.FlowKept)
    (hrelease : ∀ raised calls s t e, m.release raised calls s ≠ .error (.raised e) t) {kind : FrameKind}
    {scope : ScopeRef} {x : Run α} {s t : State} {e : Error}
    (hx : ∀ e u, x (s.enter kind scope) = .error (.raised e) u → u.context.flow = .normal)
    : (m.withFrame kind scope x s = .error (.raised e) t ∧ t.context.flow ≠ .normal) ↔
        ∃ a u, x (s.enter kind scope) = .ok a u ∧ u.context.flow ≠ .normal ∧
          m.release [] u.context.stack.top.defers u.leave = .ok (some e) t := by
  constructor
  . intro ⟨h, ht⟩
    rcases Machine.withFrame_raised h with ⟨r, u, hr, h | ⟨deferred, h, hr'⟩⟩
    . exact absurd h (hrelease _ _ _ _ _)
    . have hflow : t.context.flow = u.context.flow := (hm.release _ _ _ _ (.ok h) nofun).1
      rcases hr' with hr' | ⟨⟨a, ha⟩, hdeferred⟩
      . rw [hr'] at hr
        rw [hflow] at ht
        exact absurd (hx e u (Run.captured_error hr)) ht
      . rw [ha] at hr h
        rw [hdeferred] at h
        rw [hflow] at ht
        exact ⟨a, u, Run.captured_ok hr, ht, h⟩
  . intro ⟨a, u, hu, hsignal, h⟩
    have hflow : t.context.flow = u.context.flow := (hm.release _ _ _ _ (.ok h) nofun).1
    refine ⟨?_, ?_⟩
    . rw [Machine.withFrame_captured (Run.capture_ok hu)]
      exact Run.bind_ok h
    . rw [hflow]
      exact hsignal

/--
Errors and signals. No error leaves a signal except that of a call that was put off in a block which is
left with one. A handler therefore starts without a signal, a cleanup always does, and so does
whatever runs after a module or a block that failed.
-/
theorem error_leaves_no_signal (host : Host) (hflow : host.KeepsFlow) (hgives : host.GivesUp) (n : Nat)
    (s : State) (hs : s.context.flow = .normal)
    : let m := host.machine n
      let strict := host.checking Machine.strict n
      (∀ stmt, LeavesNoSignal (m.exec stmt) (strict.exec stmt) s) ∧
      (∀ stmts, LeavesNoSignal (m.evalBlock stmts) (strict.evalBlock stmts) s) ∧
      (∀ stmts, LeavesNoSignal (m.runModule stmts) (strict.runModule stmts) s) ∧
      (∀ stmt name stmts e t, m.exec stmt s = .error (.raised e) t → e.isFatal = false →
        m.execGuarded (m.exec stmt) (some (.mk name stmts)) s = m.handleWith name e stmts t ∧
          (t.context.flow = .normal ∨ ∃ u, strict.exec stmt s = .error .exhausted u)) ∧
      (∀ body name stmts e t, m.execBlock body s = .error (.raised e) t → e.isFatal = false →
        m.execGuarded (m.execBlock body) (some (.mk name stmts)) s = m.handleWith name e stmts t ∧
          (t.context.flow = .normal ∨ ∃ u, strict.execBlock body s = .error .exhausted u)) ∧
      (∀ body handler cleanup r t,
        Run.capture (Run.lettingGo (m.execGuarded (m.execBlock body) handler)) s = .ok r t →
        ∃ held, m.execAttempt body handler (some cleanup) s =
          (m.execBlock cleanup >>= fun _ => do
            if (← Run.flow).isNormal then
              Run.setFlow t.context.flow
              Run.setRetVal t.context.retVal
              Run.ofCaptured r) { t.withFlow .normal with held := held }) ∧
      (∀ kind scope stmts e t,
        (∀ e u, m.execAll stmts (s.enter kind scope) = .error (.raised e) u → u.context.flow = .normal) →
        ((m.withFrame kind scope (m.execAll stmts) s = .error (.raised e) t ∧ t.context.flow ≠ .normal) ↔
          ∃ u, m.execAll stmts (s.enter kind scope) = .ok () u ∧ u.context.flow ≠ .normal ∧
            m.release [] u.context.stack.top.defers u.leave = .ok (some e) t)) := by
  intro m strict
  have hkept : m.Respects Context.FlowKept := machine_respects flowKept_discipline hflow n
  have hfollows : m.Follows False True strict := checking_follows hgives (fun _ _ hm => strict_follows hm) n
  have horderly : strict.Orderly := strict_orderly hflow n
  have hexec (stmt : Stmt) : LeavesNoSignal (m.exec stmt) (strict.exec stmt) s :=
    leavesNoSignal (hfollows.exec stmt) (horderly.exec stmt) hs
  have hblock (stmts : List Stmt) : LeavesNoSignal (m.execBlock stmts) (strict.execBlock stmts) s :=
    leavesNoSignal ((Parallel.execBlock stmts).follows hfollows) (execBlock_orderly horderly stmts) hs
  refine ⟨hexec, ?_, ?_, ?_, ?_, ?_, ?_⟩
  . intro stmts
    exact leavesNoSignal (evalBlock_follows hfollows stmts) (evalBlock_orderly horderly stmts) hs
  . intro stmts
    exact leavesNoSignal (runModule_follows hfollows stmts) (runModule_orderly horderly stmts) hs
  . intro stmt name stmts e t h he
    exact ⟨Machine.execGuarded_handled h he, hexec stmt e t h⟩
  . intro body name stmts e t h he
    exact ⟨Machine.execGuarded_handled h he, hblock body e t h⟩
  . intro body handler cleanup r t h
    exact Machine.execAttempt_some m cleanup h
  . intro kind scope stmts e t hx
    rw [withFrame_signal_iff hkept (machine_release_ne_raised host n) hx]
    constructor
    . intro ⟨_, u, h⟩
      exact ⟨u, h⟩
    . intro ⟨u, h⟩
      exact ⟨(), u, h⟩

theorem scripted_error_leaves_no_signal
    : let host := Host.scripted fun _ => some []
      let s := Engine.bareState {} .silent 0
      host.KeepsFlow ∧ host.GivesUp ∧ s.context.flow = .normal ∧
        ∀ stmt, LeavesNoSignal ((host.machine 6).exec stmt) ((host.checking Machine.strict 6).exec stmt) s := by
  intro host s
  have hflow : host.KeepsFlow := scripted_respects flowKept_discipline
  have hgives : host.GivesUp := scripted_follows
  exact ⟨hflow, hgives, rfl, (error_leaves_no_signal host hflow hgives 6 s rfl).1⟩

/-- The signal that is pending after an error. -/
def Run.signalAfterError {α : Type} (x : Run α) (s : State) : Option Flow :=
  match x s with
  | .error (.raised _) t => some t.context.flow
  | _ => none

-- The exception: the block is left by a `return`, and the call that was put off in it fails.
example :
    let failing : FuncDef := .mk none [] false [.mk .unknown (.throw (.str "cleanup"))]
    let body : List Stmt :=
      [.mk .unknown (.blockDefer (.mk (.func failing) [] false)), .mk .unknown (.ret none)]
    ((Host.none.machine 6).exec (.mk .unknown (.block body))).signalAfterError
      (Engine.bareState {} .silent 0) = some .ret := by
  decide +kernel

end ScriptEngine
