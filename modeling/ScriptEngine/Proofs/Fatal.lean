import ScriptEngine.Proofs.Deferred
import ScriptEngine.Proofs.Guard

/-!
This module contains what becomes of errors that are fatal. A machine that stops as soon as anything
fails with such an error does the same as one that never looks, unless the evaluation fails with such
an error itself. What it cannot look into are the three places where an error may give way to
something else: a cleanup, the calls that were put off in a frame, and threads.
-/

namespace ScriptEngine

/-- A computation failed with a fatal error, or did not end. -/
def Lost {α : Type} : EStateM.Result Halt State α → Prop
  | .ok _ _ => False
  | .error (.raised e) _ => e.isFatal = true
  | .error _ _ => True

namespace Run

variable {α β : Type}

/-- A computation fails with a fatal error. -/
def FailsForGood (x : Run α) (s : State) : Prop := ∃ e t, x s = .error (.raised e) t ∧ e.isFatal = true

theorem lost_raised {x : Run α} {s : State} {r : EStateM.Result Halt State β} (hx : Lost (x s))
    (hraised : ∀ e t, x s = .error (.raised e) t → e.isFatal = true → Lost r)
    (hhalt : ∀ halt t, x s = .error halt t → (∀ e, halt ≠ .raised e) → Lost r)
    : Lost r := by
  cases h : x s with
  | ok a t =>
    rw [h] at hx
    exact hx.elim
  | error halt t =>
    cases halt with
    | raised e =>
      rw [h] at hx
      exact hraised e t h hx
    | exhausted => exact hhalt .exhausted t h nofun
    | died => exact hhalt .died t h nofun

theorem lost_of_error {halt : Halt} {t : State} (h : ∀ e, halt ≠ .raised e)
    : Lost (.error halt t : EStateM.Result Halt State α) := by
  cases halt with
  | raised e => exact absurd rfl (h e)
  | exhausted => trivial
  | died => trivial

theorem lost_bind {x : Run α} {f : α → Run β} {s : State} (hx : Lost (x s)) : Lost ((x >>= f) s) := by
  apply lost_raised hx
  . intro e t h he
    rw [bind_error h]
    exact he
  . intro halt t h hhalt
    rw [bind_error h]
    exact lost_of_error hhalt

/-- A computation that is captured is not lost if it fails, but neither does what follows run on. -/
theorem lost_capture_bind {x : Run α} {k : Except Error α → Run β} {s : State} (hx : Lost (x s))
    (hk : ∀ e t, e.isFatal = true → Lost (k (.error e) t))
    : Lost ((capture x >>= k) s) := by
  apply lost_raised hx
  . intro e t h he
    rw [bind_ok (capture_raised h)]
    exact hk e t he
  . intro halt t h hhalt
    have hcapture : capture x s = .error halt t := by
      unfold capture
      rw [h]
      cases halt with
      | raised e => exact absurd rfl (hhalt e)
      | exhausted => rfl
      | died => rfl
    rw [bind_error hcapture]
    exact lost_of_error hhalt

/-- What `x'` does is what `x` does, unless `x` is lost. -/
def Alike (x x' : Run α) : Prop := ∀ s, Lost (x s) ∨ x' s = x s

theorem Alike.refl (x : Run α) : Alike x x := fun _ => .inr rfl

theorem Alike.bind {x x' : Run α} {f f' : α → Run β} (hx : Alike x x') (hf : ∀ a, Alike (f a) (f' a))
    : Alike (x >>= f) (x' >>= f') := by
  intro s
  rcases hx s with hlost | hsame
  . exact .inl (lost_bind hlost)
  . rw [bind_apply, bind_apply, hsame]
    cases x s with
    | ok a t => exact hf a t
    | error halt t => exact .inr rfl

theorem Alike.capture_bind {x x' : Run α} {k k' : Except Error α → Run β} (hx : Alike x x')
    (hk : ∀ r, Alike (k r) (k' r)) (hfatal : ∀ e t, e.isFatal = true → Lost (k (.error e) t))
    : Alike (capture x >>= k) (capture x' >>= k') := by
  intro s
  rcases hx s with hlost | hsame
  . exact .inl (lost_capture_bind hlost hfatal)
  . have hcapture : capture x' s = capture x s := by
      unfold capture
      rw [hsame]
    rw [bind_apply, bind_apply, hcapture]
    cases capture x s with
    | ok r t => exact hk r t
    | error halt t => exact .inr rfl

theorem Alike.lettingGo {x x' : Run α} (hx : Alike x x') : Alike (lettingGo x) (lettingGo x') := by
  intro s
  unfold Run.lettingGo
  rcases hx s with hlost | hsame
  . left
    apply lost_raised hlost
    . intro e t h he
      rw [h]
      exact he
    . intro halt t h hhalt
      rw [h]
      exact lost_of_error hhalt
  . rw [hsame]
    exact .inr rfl

theorem Alike.finishing {x x' : Run α} (f : State → State) (hx : Alike x x')
    : Alike (finishing f x) (finishing f x') := by
  intro s
  unfold Run.finishing
  rcases hx s with hlost | hsame
  . left
    apply lost_raised hlost
    . intro e t h he
      rw [h]
      exact he
    . intro halt t h hhalt
      rw [h]
      cases halt with
      | raised e => exact absurd rfl (hhalt e)
      | exhausted => trivial
      | died => trivial
  . rw [hsame]
    exact .inr rfl

theorem Alike.deeper {x x' : Run α} (hx : Alike x x') : Alike (deeper x) (deeper x') := by
  intro s
  rw [deeper_apply, deeper_apply]
  exact hx.finishing _ _

end Run

/--
The callbacks of two machines are alike. Calls that were put off and threads are the same over both,
and the errors of calls that were put off are given as a result.
-/
structure Machine.Alike (m m' : Machine) : Prop where
  fuel : m.fuel = m'.fuel
  eval (e : Expr) : Run.Alike (m.eval e) (m'.eval e)
  exec (stmt : Stmt) : Run.Alike (m.exec stmt) (m'.exec stmt)
  invoke (callee this : Value) (args : List Value) : Run.Alike (m.invoke callee this args) (m'.invoke callee this args)
  native (call : HostCall) (this : Value) (args : List Value)
    : Run.Alike (m.native call this args) (m'.native call this args)
  loadModule (name : String) (modified : Int64)
    : Run.Alike (m.loadModule name modified) (m'.loadModule name modified)
  release : m'.release = m.release
  release_ne_raised (raised : List Value) (calls : List Deferred) (s t : State) (e : Error)
    : m.release raised calls s ≠ .error (.raised e) t
  spawn : m'.spawn = m.spawn

section Rules

variable {m m' : Machine} {l : Level} {α : Type}
variable (hm : m.Alike m')
include hm

/-- A fatal error of a body outlives the calls that were put off. -/
theorem release_lost {e : Error} (he : e.isFatal = true) (raised : List Value) (calls : List Deferred) (s : State)
    : Lost ((m.release raised calls >>= Machine.settle (.error e : Except Error α)) s) := by
  cases h : m.release raised calls s with
  | ok deferred t =>
    rw [Run.bind_ok h]
    exact he
  | error halt t =>
    rw [Run.bind_error h]
    apply Run.lost_of_error
    intro e' hhalt
    rw [hhalt] at h
    exact hm.release_ne_raised _ _ _ _ _ h

theorem withFrame_alike {x x' : Run α} (kind : FrameKind) (scope : ScopeRef) (hx : Run.Alike x x')
    : Run.Alike (m.withFrame kind scope x) (m'.withFrame kind scope x') := by
  unfold Machine.withFrame
  rw [hm.release]
  apply (Run.Alike.refl _).bind
  intro
  apply hx.capture_bind
  . intro r
    exact .refl _
  . intro e t he
    exact release_lost hm he _ _ t.leave

theorem withCall_alike {x x' : Run Unit} (name : String) (scope : ScopeRef) (hx : Run.Alike x x')
    : Run.Alike (m.withCall name scope x) (m'.withCall name scope x') := by
  intro s
  rw [Machine.withCall_apply, Machine.withCall_apply]
  apply Run.Alike.finishing
  apply (Run.Alike.refl _).bind
  intro
  apply (Run.Alike.refl _).bind
  intro
  apply (withFrame_alike hm (.function name) scope hx).deeper.bind
  intro
  exact .refl _

/-- No rule but that of `try` with a cleanup goes on after a fatal error. -/
theorem Parallel.alike {x x' : Run α} (h : Parallel m m' l x x') : Run.Alike x x' := by
  induction h with
  | bind hx hf ihx ihf => exact ihx.bind ihf
  | lettingGo hx ih => exact ih.lettingGo
  | locating hx ih =>
    apply ih.capture_bind
    . intro r
      exact .refl _
    . intro e t he
      exact he
  | capture handles hx hok hpass hhandle hfatal ihx ihok ihhandle =>
    apply ihx.capture_bind
    . intro r
      cases r with
      | ok a => exact ihok a
      | error e =>
        cases he : handles e with
        | true => exact ihhandle e he
        | false =>
          rw [(hpass e he).1, (hpass e he).2]
          exact .refl _
    . intro e t he
      rw [(hpass e (hfatal e he)).1]
      exact he
  | withBlock hx ih =>
    apply (Run.Alike.refl _).bind
    intro outer
    apply (Run.Alike.refl _).bind
    intro scope
    exact withFrame_alike hm .block scope ih
  | function name scope hx hb ihb =>
    apply (Run.Alike.refl _).bind
    intro
    apply (Run.Alike.refl _).bind
    intro a
    exact withCall_alike hm (name a) (scope a) (ihb a)
  | deeper hx hf ihx ihf =>
    apply (Run.Alike.refl _).bind
    intro
    apply ihx.bind
    intro a
    exact (ihf a).deeper
  | declare name bases hx ihx =>
    apply (Run.Alike.refl _).bind
    intro type
    apply (ihx type).bind
    intro members
    exact .refl _
  | invoke callee this args => exact hm.invoke callee this args
  | native call this args => exact hm.native call this args
  | importModule name forceReload =>
    exact Machine.importModule_steps m m' (P := fun x x' => Run.Alike x x') (fun _ => .refl _)
      (fun hx hf => hx.bind hf) hm.loadModule name forceReload
  | spawn callee args =>
    rw [hm.spawn]
    exact .refl _
  | eval hl e => exact hm.eval e
  | exec stmt => exact hm.exec stmt
  | pure => exact .refl _
  | read => exact .refl _
  | raiseError => exact .refl _
  | exhausted => exact .refl _
  | alloc => exact .refl _
  | forceLocal => exact .refl _
  | defineLocal => exact .refl _
  | assignVar => exact .refl _
  | modifyWorld => exact .refl _
  | keep => exact .refl _
  | addBlockDefer => exact .refl _
  | addDefer => exact .refl _
  | setFlow => exact .refl _
  | setRetVal => exact .refl _
  | setPosition => exact .refl _

theorem evalBlock_alike (stmts : List Stmt) : Run.Alike (m.evalBlock stmts) (m'.evalBlock stmts) := by
  unfold Machine.evalBlock
  apply ((Parallel.execAll stmts).alike hm).bind
  intro
  exact .refl _

theorem runModule_alike (stmts : List Stmt) : Run.Alike (m.runModule stmts) (m'.runModule stmts) := by
  unfold Machine.runModule Machine.runRootDefers
  rw [hm.release]
  apply Run.Alike.capture_bind
  . apply ((Parallel.execAll stmts).alike hm).bind
    intro
    exact .refl _
  . intro r
    exact .refl _
  . intro e t he
    show Lost ((m.release _ t.context.stack.takeRootDefers.1 >>= fun deferred =>
      Machine.settle (.error e : Except Error Unit) deferred >>= fun _ => _) t.takeRoot)
    rw [← bind_assoc]
    apply Run.lost_bind
    exact release_lost hm he _ _ _

end Rules

/-- The functions and the importer of a host do not go on after a fatal error either. -/
structure Host.PassesFatal (host : Host) : Prop where
  native {m m' : Machine} (hm : m.Alike m') (call : HostCall) (this : Value) (args : List Value)
    : Run.Alike (host.native m call this args) (host.native m' call this args)
  importer {m m' : Machine} (hm : m.Alike m') {load : Machine → String → Int64 → Run (Option Module)}
    (h : host.importer = some load) (name : String) (modified : Int64)
    : Run.Alike (load m name modified) (load m' name modified)

/-- Stops with `alarm` if a computation fails with a fatal error. -/
def Run.alarmed {α : Type} (alarm : Halt) (x : Run α) : Run α := fun s =>
  match x s with
  | .error (.raised e) t => if e.isFatal then .error alarm t else .error (.raised e) t
  | r => r

/--
The machine that evaluates as `m'` does and stops with `alarm` if a statement, an expression or a call
fails with a fatal error. A `try` with a cleanup, calls that were put off and threads run as on `m`.
-/
def Machine.watched (alarm : Halt) (m m' : Machine) : Machine where
  fuel := m'.fuel
  eval e := (m'.eval e).alarmed alarm
  exec stmt := (if stmt.hasCleanup then m.exec stmt else m'.exec stmt).alarmed alarm
  invoke callee this args := (m'.invoke callee this args).alarmed alarm
  release := m.release
  spawn := m.spawn
  native call this args := (m'.native call this args).alarmed alarm
  importer := m'.importer.map fun load => fun name modified => (load name modified).alarmed alarm

/-- The machine that evaluates up to `n` levels deep and looks for fatal errors at every level. -/
def Host.watching (host : Host) (alarm : Halt) : Nat → Machine
  | 0 => .spent
  | n + 1 => .watched alarm (host.machine (n + 1)) (host.above n (host.watching alarm n))

section Watching

variable {α : Type} {alarm : Halt} {host : Host} {m m' : Machine}

theorem Run.Alike.alarmed {x x' : Run α} (h : Alike x x') : Alike x (x'.alarmed alarm) := by
  intro s
  rcases h s with hlost | hsame
  . exact .inl hlost
  . unfold Run.alarmed
    rw [hsame]
    cases hx : x s with
    | ok a t => exact .inr rfl
    | error halt t =>
      cases halt with
      | raised e =>
        cases he : e.isFatal with
        | true => exact .inl he
        | false =>
          right
          dsimp only
          rw [he]
          rfl
      | exhausted => exact .inr rfl
      | died => exact .inr rfl

theorem loadModule_alike (hhost : host.PassesFatal) (hm : m.Alike m') (fuel : Nat) (name : String)
    (modified : Int64)
    : Run.Alike ((host.above fuel m).loadModule name modified)
        ((Machine.watched alarm (host.above fuel m) (host.above fuel m')).loadModule name modified) := by
  unfold Machine.loadModule Machine.watched Host.above
  dsimp only
  cases himporter : host.importer with
  | none => exact .refl _
  | some load =>
    apply (hhost.importer hm himporter name modified).alarmed.bind
    intro found
    exact .refl _

theorem watched_alike (hhost : host.PassesFatal) (hm : m.Alike m') (fuel : Nat)
    : (host.above fuel m).Alike (.watched alarm (host.above fuel m) (host.above fuel m')) := by
  have hfuel : SameFuel m m' := ⟨hm.fuel⟩
  constructor
  case fuel => rfl
  case eval =>
    intro e
    apply Run.Alike.alarmed
    rw [above_eval, above_eval]
    exact ((Parallel.evalExpr Level.expr_ne_call e).alike hm).lettingGo
  case exec =>
    intro stmt
    apply Run.Alike.alarmed
    cases hcleanup : stmt.hasCleanup with
    | true => exact .refl _
    | false =>
      show Run.Alike ((host.above fuel m).exec stmt) ((host.above fuel m').exec stmt)
      rw [above_exec, above_exec]
      exact ((Parallel.execStmt stmt hcleanup).alike hm).lettingGo
  case invoke =>
    intro callee this args
    apply Run.Alike.alarmed
    rw [above_invoke, above_invoke]
    exact (Parallel.alike hm (l := .call) (.invokeWith callee this args)).lettingGo
  case native => exact fun call this args => (hhost.native hm call this args).alarmed
  case loadModule => exact loadModule_alike hhost hm fuel
  case release => rfl
  case release_ne_raised => exact Machine.runDefers_ne_raised m
  case spawn => rfl

theorem spent_alike : Machine.spent.Alike Machine.spent := by
  constructor
  case fuel => rfl
  case eval => exact fun _ => .refl _
  case exec => exact fun _ => .refl _
  case invoke => exact fun _ _ _ => .refl _
  case native => exact fun _ _ _ => .refl _
  case loadModule => exact fun _ _ => .refl _
  case release => rfl
  case spawn => rfl
  case release_ne_raised =>
    intro raised calls s t e h
    injection h with h
    injection h

theorem watching_alike (hhost : host.PassesFatal) (alarm : Halt) (n : Nat)
    : (host.machine n).Alike (host.watching alarm n) := by
  induction n with
  | zero => exact spent_alike
  | succ n ih => exact watched_alike hhost ih n

end Watching

section Outcomes

variable {α : Type}

theorem failsForGood_iff {x : Run α} {s t : State} {r : Except Error α} (h : Run.capture x s = .ok r t)
    : x.FailsForGood s ↔ ∃ e, r = .error e ∧ e.isFatal = true := by
  cases r with
  | ok a =>
    constructor
    . intro ⟨e, u, hx, _⟩
      rw [Run.captured_ok h] at hx
      injection hx
    . intro ⟨e, hr, _⟩
      injection hr
  | error e =>
    have hx := Run.captured_error h
    constructor
    . intro ⟨e', u, hx', he'⟩
      rw [hx] at hx'
      injection hx' with he
      injection he with he
      rw [← he] at he'
      exact ⟨e, rfl, he'⟩
    . intro ⟨e', hr, he'⟩
      injection hr with he
      rw [← he] at he'
      exact ⟨e, t, hx, he'⟩

/-- Of an error of the body and one of the calls that were put off, the body's counts. -/
theorem settled_fatal_iff {r : Except Error α} {first : Option Error}
    : (∃ e, settled r first = .error e ∧ e.isFatal = true) ↔
        (∃ e, r = .error e ∧ e.isFatal = true) ∨
          (∃ a, r = .ok a) ∧ ∃ e, first = some e ∧ e.isFatal = true := by
  cases r with
  | error e =>
    constructor
    . intro h
      exact .inl h
    . intro h
      rcases h with h | ⟨⟨a, ha⟩, _⟩
      . exact h
      . injection ha
  | ok a =>
    cases first with
    | none =>
      constructor
      . intro ⟨e, h, _⟩
        injection h
      . intro h
        rcases h with ⟨e, h, _⟩ | ⟨_, e, h, _⟩
        . injection h
        . injection h
    | some first =>
      constructor
      . intro ⟨e, h, he⟩
        injection h with h
        rw [← h] at he
        exact .inr ⟨⟨a, rfl⟩, first, rfl, he⟩
      . intro h
        rcases h with ⟨e, h, _⟩ | ⟨_, e, h, he⟩
        . injection h
        . injection h with h
          rw [← h] at he
          exact ⟨first, rfl, he⟩

/-- A fatal error of the body is discarded by a cleanup that leaves a signal or fails otherwise. -/
theorem execAttempt_fails_iff (m : Machine) (cleanup : List Stmt) {body : List Stmt}
    {handler : Option Handler} {s t : State} {e : Error}
    (h : Run.capture (Run.lettingGo (m.execGuarded (m.execBlock body) handler)) s = .ok (.error e) t)
    (he : e.isFatal = true)
    : ∃ held, let start : State := { t.withFlow .normal with held := held }
        (m.execAttempt body handler (some cleanup)).FailsForGood s ↔
          (m.execBlock cleanup).FailsForGood start ∨
            ∃ u, m.execBlock cleanup start = .ok () u ∧ u.context.flow = .normal := by
  rcases Machine.execAttempt_some m cleanup h with ⟨held, hattempt⟩
  refine ⟨held, ?_⟩
  intro start
  unfold Run.FailsForGood
  rw [hattempt, Run.bind_apply]
  cases hcleanup : m.execBlock cleanup start with
  | ok a u =>
    -- What follows a cleanup depends on whether it leaves a signal.
    show (∃ e' v, (if u.context.flow.isNormal then do
        Run.setFlow t.context.flow
        Run.setRetVal t.context.retVal
        Run.ofCaptured (.error e) else pure () : Run Unit) u = .error (.raised e') v ∧ e'.isFatal = true) ↔ _
    cases hflow : u.context.flow.isNormal with
    | true =>
      constructor
      . intro _
        exact .inr ⟨u, rfl, eq_of_beq hflow⟩
      . intro _
        exact ⟨e, _, rfl, he⟩
    | false =>
      constructor
      . intro ⟨e', v, hv, _⟩
        injection hv
      . intro hfails
        rcases hfails with ⟨e', v, hv, _⟩ | ⟨v, hv, hnormal⟩
        . injection hv
        . injection hv with _ hv
          rw [hv, hnormal] at hflow
          injection hflow
  | error halt u =>
    constructor
    . intro ⟨e', v, hv, he'⟩
      injection hv with hhalt hv
      rw [hhalt]
      exact .inl ⟨e', u, rfl, he'⟩
    . intro hfails
      rcases hfails with ⟨e', v, hv, he'⟩ | ⟨v, hv, _⟩
      . injection hv with hhalt hv
        rw [hhalt]
        exact ⟨e', u, rfl, he'⟩
      . injection hv

theorem withFrame_fails_iff (host : Host) (n : Nat) {kind : FrameKind} {scope : ScopeRef} {body : Run α}
    {s u : State} {r : Except Error α} (h : Run.capture body (s.enter kind scope) = .ok r u)
    : ∃ held, ∀ outcomes v,
        Handled (host.machine n) u.context.stack.top.defers { u.leave.withFlow .normal with held := held }
          outcomes v →
        (((host.machine (n + 1)).withFrame kind scope body).FailsForGood s ↔
          (∃ e, r = .error e ∧ e.isFatal = true) ∨
            (∃ a, r = .ok a) ∧ ∃ e, firstError outcomes = some e ∧ e.isFatal = true) := by
  rcases withFrame_handled host n h with ⟨held, hframe⟩
  refine ⟨held, ?_⟩
  intro outcomes v hv
  rw [failsForGood_iff ((hframe _ _).mpr ⟨outcomes, v, hv, rfl, rfl⟩)]
  exact settled_fatal_iff

theorem exported_fatal_iff {r : Except Error Unit} {s : State}
    : (∃ e, (exported r s).1 = .error e ∧ e.isFatal = true) ↔ ∃ e, r = .error e ∧ e.isFatal = true := by
  cases r with
  | ok a =>
    constructor
    . intro ⟨e, h, _⟩
      injection h
    . intro ⟨e, h, _⟩
      injection h
  | error e =>
    constructor
    . intro ⟨e', h, he⟩
      injection h with h
      exact ⟨e', by rw [h], he⟩
    . intro ⟨e', h, he⟩
      injection h with h
      exact ⟨e', by rw [h]; rfl, he⟩

theorem runModule_fails_iff (host : Host) (n : Nat) {stmts : List Stmt} {s u : State} {r : Except Error Unit}
    (h : Run.capture (do (host.machine (n + 1)).execAll stmts; Run.finishFlow) s = .ok r u)
    : ∃ held, ∀ outcomes v,
        Handled (host.machine n) u.context.stack.root.defers
          { u.takeRoot.withFlow .normal with held := held } outcomes v →
        (((host.machine (n + 1)).runModule stmts).FailsForGood s ↔
          (∃ e, r = .error e ∧ e.isFatal = true) ∨
            (∃ a, r = .ok a) ∧ ∃ e, firstError outcomes = some e ∧ e.isFatal = true) := by
  rcases runModule_handled host n h with ⟨held, hmodule⟩
  refine ⟨held, ?_⟩
  intro outcomes v hv
  have hends := (hmodule _ _).mpr ⟨outcomes, v, hv, rfl⟩
  exact (failsForGood_iff hends).trans (exported_fatal_iff.trans settled_fatal_iff)

end Outcomes

/--
Fatal errors. If a statement, an expression or a call fails with one, then so does everything that it
is evaluated for, up to the whole block or module; no handler and no right side of `??` runs. Such an
error is lost in two places only: a cleanup that leaves a signal or fails with an error that is not
fatal takes its place, and of the errors in a frame or a module the first counts, fatal or not.
-/
theorem fatal_errors_surface (host : Host) (hhost : host.PassesFatal) (n : Nat) (alarm : Halt)
    : let m := host.machine (n + 1)
      let watching := host.watching alarm (n + 1)
      (∀ stmt, Run.Alike (m.exec stmt) (watching.exec stmt)) ∧
      (∀ e, Run.Alike (m.eval e) (watching.eval e)) ∧
      (∀ callee this args, Run.Alike (m.invoke callee this args) (watching.invoke callee this args)) ∧
      (∀ stmts, Run.Alike (m.evalBlock stmts) (watching.evalBlock stmts)) ∧
      (∀ stmts, Run.Alike (m.runModule stmts) (watching.runModule stmts)) ∧
      (∀ body handler s e t, body s = .error (.raised e) t → e.isFatal = true →
        m.execGuarded body handler s = .error (.raised e) t) ∧
      (∀ left right s e t, m.eval left s = .error (.raised e) t → e.isFatal = true →
        m.evalCoalesce left right s = .error (.raised e) t) ∧
      (∀ body handler, Run.Alike (Run.lettingGo (m.execGuarded (m.execBlock body) handler))
        (Run.lettingGo (watching.execGuarded (watching.execBlock body) handler))) ∧
      (∀ body handler cleanup s e t,
        Run.capture (Run.lettingGo (m.execGuarded (m.execBlock body) handler)) s = .ok (.error e) t →
        e.isFatal = true →
        ∃ held, let start : State := { t.withFlow .normal with held := held }
          (m.execAttempt body handler (some cleanup)).FailsForGood s ↔
            (m.execBlock cleanup).FailsForGood start ∨
              ∃ u, m.execBlock cleanup start = .ok () u ∧ u.context.flow = .normal) ∧
      (∀ (α : Type) (kind : FrameKind) (scope : ScopeRef) (body : Run α) (s u : State) (r : Except Error α),
        Run.capture body (s.enter kind scope) = .ok r u →
        ∃ held, ∀ outcomes v,
          Handled (host.machine n) u.context.stack.top.defers { u.leave.withFlow .normal with held := held }
            outcomes v →
          ((m.withFrame kind scope body).FailsForGood s ↔
            (∃ e, r = .error e ∧ e.isFatal = true) ∨
              (∃ a, r = .ok a) ∧ ∃ e, firstError outcomes = some e ∧ e.isFatal = true)) ∧
      (∀ (stmts : List Stmt) (s u : State) (r : Except Error Unit),
        Run.capture (do m.execAll stmts; Run.finishFlow) s = .ok r u →
        ∃ held, ∀ outcomes v,
          Handled (host.machine n) u.context.stack.root.defers
            { u.takeRoot.withFlow .normal with held := held } outcomes v →
          ((m.runModule stmts).FailsForGood s ↔
            (∃ e, r = .error e ∧ e.isFatal = true) ∨
              (∃ a, r = .ok a) ∧ ∃ e, firstError outcomes = some e ∧ e.isFatal = true)) := by
  intro m watching
  have hm : m.Alike watching := watching_alike hhost alarm (n + 1)
  refine ⟨hm.exec, hm.eval, hm.invoke, evalBlock_alike hm, runModule_alike hm, ?_, ?_, ?_, ?_, ?_, ?_⟩
  . intro body handler s e t h he
    exact Machine.execGuarded_raised h (.inl he)
  . intro left right s e t h he
    exact Machine.evalCoalesce_raised h he
  . intro body handler
    exact Parallel.alike hm (.lettingGo (.execGuarded (.execBlock body) handler))
  . intro body handler cleanup s e t h he
    exact execAttempt_fails_iff m cleanup h he
  . intro α kind scope body s u r h
    exact withFrame_fails_iff host n h
  . intro stmts s u r h
    exact runModule_fails_iff host n h

theorem forked_alike {α : Type} {x x' : Run α} (hx : Run.Alike x x')
    : Run.Alike (Run.forked x) (Run.forked x') := by
  intro s
  rcases Machine.forked_apply s with ⟨context, heap, _, happly⟩
  rw [happly x, happly x']
  rcases hx { s with heap := heap, context := context, held := .context s.context :: s.held } with hlost | hsame
  . left
    apply Run.lost_raised hlost
    . intro e t h he
      rw [h]
      exact he
    . intro halt t h hhalt
      rw [h]
      exact Run.lost_of_error hhalt
  . rw [hsame]
    exact .inr rfl

theorem scripted_passesFatal {modules : String → Option (List Stmt)}
    : (Host.scripted modules).PassesFatal := by
  constructor
  case native =>
    intro m m' hm call this args
    cases args with
    | nil => exact .refl _
    | cons callee args => exact hm.invoke callee this args
  case importer =>
    intro m m' hm load h name modified
    injection h with h
    rw [← h]
    dsimp only
    split
    . exact .refl _
    . next stmts _ =>
      apply (forked_alike (runModule_alike hm stmts)).bind
      intro value
      exact .refl _

/-- The cause of the error that a computation raises. -/
def Run.cause? {α : Type} (x : Run α) (s : State) : Option Cause :=
  match x s with
  | .error (.raised e) _ => some e.cause
  | _ => none

theorem Run.raised_of_cause {α : Type} {x : Run α} {s : State} {cause : Cause} (h : x.cause? s = some cause)
    : ∃ e t, x s = .error (.raised e) t ∧ e.cause = cause := by
  unfold cause? at h
  split at h
  . next e t hx =>
    injection h with h
    exact ⟨e, t, hx, h⟩
  . injection h

/-- An export in a block inside a block, with a handler around it. -/
theorem scripted_fatal_errors_surface
    : let host := Host.scripted fun _ => some []
      let m := host.machine 8
      let s := Engine.bareState {} .silent 0
      let nested := Stmt.mk .unknown (.block [.mk .unknown (.export "x" (.int 1))])
      let body := m.exec (.mk .unknown (.block [nested]))
      host.PassesFatal ∧
        (∀ alarm stmt, Run.Alike (m.exec stmt) ((host.watching alarm 8).exec stmt)) ∧
        ∃ e t, body s = .error (.raised e) t ∧ e.isFatal = true ∧
          m.execGuarded body (some (.mk "e" [])) s = .error (.raised e) t := by
  intro host m s nested body
  have hhost : host.PassesFatal := scripted_passesFatal
  have hcause : body.cause? s = some .misplacedExport := by decide +kernel
  rcases Run.raised_of_cause hcause with ⟨e, t, h, he⟩
  have hfatal : e.isFatal = true := by
    unfold Error.isFatal
    rw [he]
    rfl
  refine ⟨hhost, ?_, e, t, h, hfatal, ?_⟩
  . intro alarm
    exact (fatal_errors_surface host hhost 7 alarm).1
  . exact (fatal_errors_surface host hhost 7 .died).2.2.2.2.2.1 body _ s e t h hfatal

-- The cleanup raises an error of its own, which a handler around the statement may take.
example :
    let nested := Stmt.mk .unknown (.block [.mk .unknown (.export "x" (.int 1))])
    let cleanup := Stmt.mk .unknown (.throw (.str "plain"))
    ((Host.none.machine 8).exec (.mk .unknown (.attempt [nested] none (some [cleanup])))).cause?
      (Engine.bareState {} .silent 0) = some .thrown := by
  decide +kernel

end ScriptEngine
