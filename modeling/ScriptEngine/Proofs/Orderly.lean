import ScriptEngine.Proofs.Guard
import ScriptEngine.Proofs.ScriptedHost

/-!
This module contains statements that leave no signal behind when they raise an error. All of them are
so over a machine whose calls that are put off do not fail while a block is left with a signal.
-/

namespace ScriptEngine

/-- Expressions and calls leave the signal and the value of the statement as they were. -/
def Context.FlowKept (l : Level) (c d : Context) : Prop :=
  l ≠ .stmt → d.flow = c.flow ∧ d.retVal = c.retVal

theorem flowKept_discipline : Discipline Context.FlowKept where
  refl _ _ _ := ⟨rfl, rfl⟩
  trans h1 h2 hl := ⟨(h2 hl).1.trans (h1 hl).1, (h2 hl).2.trans (h1 hl).2⟩
  ofCall h _ := h nofun
  ofExpr _ h _ := h nofun
  block _ h hl := h hl
  addBlockDefer _ _ _ := ⟨rfl, rfl⟩
  addDefer _ _ hl := absurd rfl hl
  setFlow _ _ hl := absurd rfl hl
  setRetVal _ _ hl := absurd rfl hl
  setPosition _ _ hl := absurd rfl hl
  function _ _ _ _ _ := ⟨rfl, rfl⟩
  native h hl := h hl
  cleared hc h hl := ⟨hc.symm, (h hl).2⟩
  released _ _ := ⟨rfl, rfl⟩

namespace Run

variable {α β : Type}

/-- The pending signal is the same at the end. -/
def Quiet (x : Run α) : Prop := x.Leaves fun c d => d.flow = c.flow

/-- An error leaves no signal, if there was none at the start. -/
def Orderly (x : Run α) : Prop :=
  ∀ s t e, s.context.flow = .normal → x s = .error (.raised e) t → t.context.flow = .normal

/-- An error leaves no signal. -/
def Clean (x : Run α) : Prop := ∀ s t e, x s = .error (.raised e) t → t.context.flow = .normal

theorem Quiet.bind {x : Run α} {f : α → Run β} (hx : x.Quiet) (hf : ∀ a, (f a).Quiet)
    : (x >>= f).Quiet := by
  intro s t h
  rcases ends_bind h with ⟨e, h⟩ | ⟨a, u, hu, ht⟩
  . exact hx s t (.raised h)
  . exact (hf a u t ht).trans (hx s u (.ok hu))

theorem OnlyHeap.quiet {x : Run α} (hx : x.OnlyHeap) : x.Quiet := by
  have hleaves : x.Leaves (Context.FlowKept .expr) := hx.leaves flowKept_discipline
  intro s t h
  exact (hleaves s t h nofun).1

theorem Quiet.orderly {x : Run α} (hx : x.Quiet) : x.Orderly := by
  intro s t e hs h
  exact (hx s t (.raised h)).trans hs

theorem Clean.orderly {x : Run α} (hx : x.Clean) : x.Orderly := by
  intro s t e _ h
  exact hx s t e h

theorem pure_clean (a : α) : (pure a : Run α).Clean := by
  intro s t e h
  injection h

theorem exhausted_orderly : (exhausted : Run α).Orderly := by
  intro s t e _ h
  injection h with h
  injection h

/-- What comes after a computation that leaves no signal. -/
theorem Quiet.bind_orderly {x : Run α} {f : α → Run β} (hx : x.Quiet) (hf : ∀ a, (f a).Orderly)
    : (x >>= f).Orderly := by
  intro s t e hs h
  rcases bind_raised h with h | ⟨a, u, hu, h⟩
  . exact hx.orderly s t e hs h
  . apply hf a u t e _ h
    exact (hx s u (.ok hu)).trans hs

/-- What comes after a computation that may leave a signal must not fail with it. -/
theorem Orderly.bind {x : Run α} {f : α → Run β} (hx : x.Orderly) (hf : ∀ a, (f a).Clean)
    : (x >>= f).Orderly := by
  intro s t e hs h
  rcases bind_raised h with h | ⟨a, u, _, h⟩
  . exact hx s t e hs h
  . exact hf a u t e h

theorem Orderly.lettingGo {x : Run α} (hx : x.Orderly) : (lettingGo x).Orderly := by
  intro s t e hs h
  unfold Run.lettingGo at h
  cases hr : x s with
  | ok a u =>
    rw [hr] at h
    injection h
  | error halt u =>
    rw [hr] at h
    injection h with hhalt ht
    rw [hhalt] at hr
    rw [← ht]
    exact hx s u e hs hr

theorem Orderly.ite {c : Prop} [Decidable c] {x y : Run α} (hx : x.Orderly) (hy : y.Orderly)
    : (if c then x else y).Orderly := by
  split
  . exact hx
  . exact hy

/-- A computation that runs only if there is no signal. -/
theorem ifNormal_clean {condition : Flow → Bool} (h : ∀ f, condition f = true → f = .normal)
    {x : Run Unit} (hx : x.Orderly)
    : (do if condition (← flow) then x : Run Unit).Clean := by
  intro s t e ht
  have ht : (if condition s.context.flow then x else pure () : Run Unit) s = .error (.raised e) t := ht
  split at ht
  . next hnormal => exact hx s t e (h _ hnormal) ht
  . injection ht

theorem isNormal_eq (f : Flow) (h : f.isNormal = true) : f = .normal := eq_of_beq h

/-- The result `a` is given only without a signal. -/
def Yields (a : α) (x : Run α) : Prop := ∀ s t, x s = .ok a t → t.context.flow = .normal

theorem Yields.bind {b : β} {x : Run α} {f : α → Run β} (hf : ∀ a, (f a).Yields b)
    : (x >>= f).Yields b := by
  intro s t h
  rw [bind_apply] at h
  cases hx : x s with
  | ok a u =>
    rw [hx] at h
    exact hf a u t h
  | error halt u =>
    rw [hx] at h
    injection h

theorem Yields.lettingGo {a : α} {x : Run α} (hx : x.Yields a) : (lettingGo x).Yields a := by
  intro s t h
  unfold Run.lettingGo at h
  cases hr : x s with
  | ok b u =>
    rw [hr] at h
    injection h with hb ht
    rw [hb] at hr
    rw [← ht]
    exact hx s u hr
  | error halt u =>
    rw [hr] at h
    injection h

theorem pure_yields {a b : α} (h : a ≠ b) : (pure a : Run α).Yields b := by
  intro s t ht
  injection ht with ht
  exact absurd ht h

/-- What comes after a result that may stand for a signal must not fail with it. -/
theorem Orderly.bind_yields {x : Run α} {f : α → Run β} (hx : x.Orderly)
    (hf : ∀ a, (f a).Clean ∨ x.Yields a ∧ (f a).Orderly)
    : (x >>= f).Orderly := by
  intro s t e hs h
  rcases bind_raised h with h | ⟨a, u, hu, h⟩
  . exact hx s t e hs h
  . rcases hf a with hclean | ⟨hyields, horderly⟩
    . exact hclean u t e h
    . exact horderly u t e (hyields s u hu) h

theorem leavesLoop_apply (label : Option String) (s : State)
    : leavesLoop label s =
        match s.context.flow with
        | .normal => .ok false s
        | .ret => .ok true s
        | .jump kind target =>
          if target.isNone || target == label then .ok (kind == .breakLoop) (s.withFlow .normal)
          else .ok true s := by
  have hflow : flow s = .ok s.context.flow s := rfl
  unfold leavesLoop
  rw [bind_ok hflow]
  cases s.context.flow with
  | normal => rfl
  | ret => rfl
  | jump kind target =>
    dsimp only
    split
    . rfl
    . rfl

/-- A loop that goes on has no signal. -/
theorem leavesLoop_false {label : Option String} {s t : State} (h : leavesLoop label s = .ok false t)
    : t.context.flow = .normal := by
  rw [leavesLoop_apply] at h
  cases hflow : s.context.flow with
  | normal =>
    rw [hflow] at h
    injection h with _ h
    rw [← h, hflow]
  | ret =>
    rw [hflow] at h
    injection h with h
    injection h
  | jump kind target =>
    rw [hflow] at h
    dsimp only at h
    split at h
    . injection h with _ h
      rw [← h]
      rfl
    . injection h with h
      injection h

theorem leavesLoop_clean (label : Option String) : (leavesLoop label).Clean := by
  intro s t e h
  rw [leavesLoop_apply] at h
  split at h
  . injection h
  . injection h
  . split at h
    . injection h
    . injection h

theorem ifGoesOn_clean {label : Option String} {x : Run Unit} (hx : x.Orderly)
    : (do if !(← leavesLoop label) then x : Run Unit).Clean := by
  intro s t e h
  rcases bind_raised h with h | ⟨leaves, u, hu, h⟩
  . exact leavesLoop_clean label s t e h
  . cases leaves with
    | true => injection h
    | false => exact hx u t e (leavesLoop_false hu) h

theorem leavesLoop_yields {label : Option String} {f : Bool → Run α} {a : α} (hleaves : (f true).Yields a)
    (hstays : (f false).Quiet)
    : (leavesLoop label >>= f).Yields a := by
  intro s t h
  rw [bind_apply] at h
  cases hr : leavesLoop label s with
  | ok leaves u =>
    rw [hr] at h
    cases leaves with
    | true => exact hleaves u t h
    | false => exact (hstays u t (.ok h)).trans (leavesLoop_false hr)
  | error halt u =>
    rw [hr] at h
    injection h

theorem leavesLoop_bind_clean {label : Option String} {f : Bool → Run α} (hf : ∀ b, (f b).Clean)
    : (leavesLoop label >>= f).Clean := by
  intro s t e h
  rcases bind_raised h with h | ⟨leaves, u, _, h⟩
  . exact leavesLoop_clean label s t e h
  . exact hf leaves u t e h

theorem setRetVal_quiet (value : Value) : (setRetVal value).Quiet := by
  apply leaves_of_ok
  intro s
  exact ⟨(), s.withRetVal value, rfl, rfl⟩

theorem setFlow_clean (flow : Flow) : (setFlow flow).Clean := by
  intro s t e h
  injection h

theorem Clean.bind {x : Run α} {f : α → Run β} (hx : x.Clean) (hf : ∀ a, (f a).Clean)
    : (x >>= f).Clean := by
  intro s t e h
  rcases bind_raised h with h | ⟨a, u, _, h⟩
  . exact hx s t e h
  . exact hf a u t e h

theorem read_clean (f : State → α) : Clean fun s => .ok (f s) s := by
  intro s t e h
  injection h

theorem finishFlow_apply (s : State)
    : finishFlow s =
        match s.context.flow with
        | .normal | .ret => .ok () (s.withFlow .normal)
        | .jump kind label =>
          (located (.ofCause (.unmatchedJump kind label)) >>= raiseError) (s.withFlow .normal) := by
  have hflow : takeFlow s = .ok s.context.flow (s.withFlow .normal) := rfl
  unfold finishFlow
  rw [bind_ok hflow]
  cases s.context.flow <;> rfl

theorem finishFlow_clean : finishFlow.Clean := by
  intro s t e h
  rw [finishFlow_apply] at h
  split at h
  . injection h
  . injection h
  . injection h with _ h
    rw [← h]
    rfl

theorem finishFlow_yields : finishFlow.Yields () := by
  intro s t h
  rw [finishFlow_apply] at h
  split at h
  . injection h with _ h
    rw [← h]
    rfl
  . injection h with _ h
    rw [← h]
    rfl
  . injection h

theorem settle_quiet (r : Except Error α) (deferred : Option Error) : (Machine.settle r deferred).Quiet := by
  intro s t h
  rw [Machine.ends_settle h]

theorem pure_quiet (a : α) : (pure a : Run α).Quiet := by
  intro s t h
  rw [ends_pure h]

theorem Orderly.locating {x : Run α} (hx : x.Orderly) : (locating x).Orderly := by
  intro s t e hs h
  unfold Run.locating at h
  rcases bind_raised h with h | ⟨r, u, hu, h⟩
  . exact absurd h (capture_ne_raised x s t e)
  . cases r with
    | ok a => injection h
    | error e' =>
      have hx := hx s u e' hs (captured_error hu)
      injection h with _ h
      rw [← h]
      exact hx

end Run

/--
No statement of a machine leaves a signal with an error, because the calls that are put off in a
block do not fail while it is left with a signal.
-/
structure Machine.Orderly (m : Machine) : Prop where
  kept : m.Respects Context.FlowKept
  exec (stmt : Stmt) : (m.exec stmt).Orderly
  release {raised : List Value} {calls : List Deferred} {s t : State} {e : Error}
    (h : m.release raised calls s = .ok (some e) t) : s.context.flow = .normal
  release_ne_raised (raised : List Value) (calls : List Deferred) (s t : State) (e : Error)
    : m.release raised calls s ≠ .error (.raised e) t

section Rules

variable {α : Type} {m : Machine}
variable (hm : m.Orderly)
include hm

theorem Machine.Orderly.quiet {x : Run α} (h : Parallel m m .expr x x) : x.Quiet := by
  intro s t ht
  exact (Parallel.leavesAlone flowKept_discipline hm.kept h s t ht nofun).1

theorem withFrame_orderly {x : Run α} (kind : FrameKind) (scope : ScopeRef) (hx : x.Orderly)
    : (m.withFrame kind scope x).Orderly := by
  intro s t e hs h
  rcases Machine.withFrame_raised h with ⟨r, u, hr, h | ⟨deferred, h, hr' | ⟨_, hdeferred⟩⟩⟩
  . exact absurd h (hm.release_ne_raised _ _ _ _ _)
  . -- The body raised the error, so no signal is pending when the calls are made.
    rw [hr'] at hr
    have hu := hx (s.enter kind scope) u e hs (Run.captured_error hr)
    exact (hm.kept.release _ _ _ _ (.ok h) nofun).1.trans hu
  . -- A call raised the error, so no signal was pending.
    rw [hdeferred] at h
    exact (hm.kept.release _ _ _ _ (.ok h) nofun).1.trans (hm.release h)

theorem withBlock_orderly {x : Run α} (hx : x.Orderly) : (m.withBlock x).Orderly := by
  unfold Machine.withBlock
  apply (hm.quiet .currentScope).bind_orderly
  intro outer
  apply (Run.OnlyHeap.quiet (Run.alloc_onlyHeap _)).bind_orderly
  intro scope
  exact withFrame_orderly hm .block scope hx

theorem execAll_orderly (stmts : List Stmt) : (m.execAll stmts).Orderly := by
  induction stmts with
  | nil => exact (Run.pure_clean ()).orderly
  | cons stmt stmts ih =>
    unfold Machine.execAll
    apply (hm.exec stmt).bind
    intro
    exact Run.ifNormal_clean Run.isNormal_eq ih

theorem execBlock_orderly (stmts : List Stmt) : (m.execBlock stmts).Orderly := by
  unfold Machine.execBlock
  apply withBlock_orderly hm
  exact execAll_orderly hm stmts

theorem execOptional_orderly (body : Option (List Stmt)) : (m.execOptional body).Orderly := by
  cases body with
  | none => exact (Run.pure_clean ()).orderly
  | some body => exact execBlock_orderly hm body

theorem runLoop_orderly (label : Option String) (check next : Option Expr) (body : List Stmt) (fuel : Nat)
    : (m.runLoop label check next body fuel).Orderly := by
  induction fuel with
  | zero => exact Run.exhausted_orderly
  | succ fuel ih =>
    unfold Machine.runLoop
    apply (hm.quiet (.checkHolds Level.expr_ne_call check)).bind_orderly
    intro holds
    apply Run.Orderly.ite
    . apply (execBlock_orderly hm body).bind
      intro
      apply Run.ifGoesOn_clean
      apply (hm.quiet (.evalOptional Level.expr_ne_call next)).bind_orderly
      intro
      exact ih
    . exact (Run.pure_clean ()).orderly

theorem execLoop_orderly (label : Option String) (start check next : Option Expr) (body : List Stmt)
    : (m.execLoop label start check next body).Orderly := by
  unfold Machine.execLoop
  apply withBlock_orderly hm
  apply (hm.quiet (.evalOptional Level.expr_ne_call start)).bind_orderly
  intro
  exact runLoop_orderly hm label check next body m.fuel

theorem runDoWhile_orderly (label : Option String) (check : Expr) (body : List Stmt) (fuel : Nat)
    : (m.runDoWhile label check body fuel).Orderly := by
  induction fuel with
  | zero => exact Run.exhausted_orderly
  | succ fuel ih =>
    unfold Machine.runDoWhile
    apply (execBlock_orderly hm body).bind
    intro
    apply Run.ifGoesOn_clean
    apply (hm.quiet (.checkHolds Level.expr_ne_call (some check))).bind_orderly
    intro holds
    apply Run.Orderly.ite
    . exact ih
    . exact (Run.pure_clean ()).orderly

theorem runWhile_orderly (label : Option String) (check : Expr) (body : List Stmt) (fuel : Nat)
    : (m.runWhile label check body fuel).Orderly := by
  induction fuel with
  | zero => exact Run.exhausted_orderly
  | succ fuel ih =>
    unfold Machine.runWhile
    apply Run.Orderly.bind_yields
    . apply Run.Orderly.lettingGo
      apply (hm.quiet (.evalHeld Level.expr_ne_call check)).bind_orderly
      intro value
      apply (hm.quiet (.isTruthy value)).bind_orderly
      intro holds
      apply Run.Orderly.ite
      . apply (execBlock_orderly hm body).bind
        intro
        apply Run.leavesLoop_bind_clean
        intro leaves
        apply Run.pure_clean
      . exact (Run.pure_clean false).orderly
    . intro again
      cases again with
      | false => exact .inl (Run.pure_clean ())
      | true =>
        right
        refine ⟨?_, ih⟩
        apply Run.Yields.lettingGo
        apply Run.Yields.bind
        intro value
        apply Run.Yields.bind
        intro holds
        split
        . apply Run.Yields.bind
          intro
          exact Run.leavesLoop_yields (Run.pure_yields Bool.false_ne_true) (Run.pure_quiet _)
        . exact Run.pure_yields Bool.false_ne_true

theorem handleWith_orderly (name : String) (e : Error) (body : List Stmt)
    : (m.handleWith name e body).Orderly := by
  unfold Machine.handleWith
  apply (hm.quiet (.holdAll _)).bind_orderly
  intro
  apply (hm.quiet (.exceptionValue e)).bind_orderly
  intro exception
  apply withBlock_orderly hm
  apply (hm.quiet (.forceLocal Level.expr_ne_call name exception)).bind_orderly
  intro
  exact execAll_orderly hm body

theorem execGuarded_orderly {body : Run Unit} (hb : body.Orderly) (handler : Option Handler)
    : (m.execGuarded body handler).Orderly := by
  intro s t e hs h
  rcases Run.bind_raised h with h | ⟨r, u, hr, h⟩
  . exact absurd h (Run.capture_ne_raised _ _ _ _)
  . split at h
    . next e' name stmts _ =>
      have hu := hb s u e' hs (Run.captured_error hr)
      split at h
      . injection h with _ h
        rw [← h]
        exact hu
      . exact handleWith_orderly hm name e' stmts u t e hu h
    . cases r with
      | ok a => injection h
      | error e' =>
        injection h with _ h
        rw [← h]
        exact hb s u e' hs (Run.captured_error hr)

theorem execAttempt_orderly (body : List Stmt) (handler : Option Handler) (cleanup : Option (List Stmt))
    : (m.execAttempt body handler cleanup).Orderly := by
  have hguarded : (Run.lettingGo (m.execGuarded (m.execBlock body) handler)).Orderly :=
    (execGuarded_orderly hm (execBlock_orderly hm body) handler).lettingGo
  intro s t e hs hraised
  rcases Run.bind_raised hraised with h | ⟨r, u, hr, h⟩
  . exact absurd h (Run.capture_ne_raised _ _ _ _)
  . cases cleanup with
    | none =>
      cases r with
      | ok a => injection h
      | error e' =>
        injection h with _ h
        rw [← h]
        exact hguarded s u e' hs (Run.captured_error hr)
    | some cleanup =>
      rcases Machine.execAttempt_some m cleanup hr with ⟨held, hattempt⟩
      rw [hattempt] at hraised
      rcases Run.bind_raised hraised with h | ⟨_, v, _, h⟩
      . exact execBlock_orderly hm cleanup _ t e rfl h
      . have h : (if v.context.flow.isNormal then do
            Run.setFlow u.context.flow
            Run.setRetVal u.context.retVal
            Run.ofCaptured r
          else pure () : Run Unit) v = .error (.raised e) t := h
        split at h
        . cases r with
          | ok a => injection h
          | error e' =>
            injection h with _ h
            rw [← h]
            exact hguarded s u e' hs (Run.captured_error hr)
        . injection h

theorem execIf_orderly (otherwise : Option (List Stmt)) (arms : List IfArm)
    : (m.execIf otherwise arms).Orderly := by
  induction arms with
  | nil => exact execOptional_orderly hm otherwise
  | cons arm arms ih =>
    cases arm with
    | mk start condition body =>
      have harm : (do
          if ← m.isTruthy (← m.evalHeld condition) then m.execBlock body
          else m.execIf otherwise arms : Run Unit).Orderly := by
        apply (hm.quiet (.evalHeld Level.expr_ne_call condition)).bind_orderly
        intro value
        apply (hm.quiet (.isTruthy value)).bind_orderly
        intro holds
        apply Run.Orderly.ite
        . exact execBlock_orderly hm body
        . exact ih
      cases start with
      | none => exact harm
      | some start =>
        apply withBlock_orderly hm
        apply (hm.quiet (.eval Level.expr_ne_call start)).bind_orderly
        intro
        exact harm

theorem execSwitch_orderly (input : Value) (otherwise : Option (List Stmt)) (cases : List SwitchCase)
    : (m.execSwitch input otherwise cases).Orderly := by
  induction cases with
  | nil => exact execOptional_orderly hm otherwise
  | cons c cases ih =>
    cases c with
    | mk pattern body fallsThrough =>
      unfold Machine.execSwitch
      apply (hm.quiet (.valueMatches Level.expr_ne_call pattern input)).bind_orderly
      intro holds
      apply Run.Orderly.ite
      . apply (execBlock_orderly hm body).bind
        intro
        apply Run.ifNormal_clean _ ih
        intro f hf
        rw [Bool.and_eq_true] at hf
        exact Run.isNormal_eq f hf.2
      . exact ih

section Iterate

variable {σ : Type} {visit : σ → Value → Value → Run (Visit σ)}
variable (hv : ∀ acc i item, (visit acc i item).Orderly)
variable (hnext : ∀ acc i item acc', (visit acc i item).Yields (.next acc'))
include hv hnext

omit hm in
/-- The items after one are visited only if its visit left no signal. -/
theorem visit_orderly {rest : σ → Run σ} (hrest : ∀ acc, (rest acc).Orderly) (acc : σ) (i item : Value)
    : (do
        match ← visit acc i item with
        | .stop acc => return acc
        | .next acc => rest acc : Run σ).Orderly := by
  apply (hv acc i item).bind_yields
  intro visited
  cases visited with
  | stop acc => exact .inl (Run.pure_clean acc)
  | next acc' => exact .inr ⟨hnext acc i item acc', hrest acc'⟩

omit hm in
theorem visitWords_orderly (acc : σ) (n : Nat) (index word : Int64)
    : (Machine.visitWords visit acc n index word).Orderly := by
  induction n generalizing acc index word with
  | zero => exact (Run.pure_clean acc).orderly
  | succ n ih =>
    unfold Machine.visitWords
    apply visit_orderly hv hnext
    intro acc
    apply ih

omit hm in
theorem visitChars_orderly (acc : σ) (cs : List Char) (index : Int64)
    : (Machine.visitChars visit acc cs index).Orderly := by
  induction cs generalizing acc index with
  | nil => exact (Run.pure_clean acc).orderly
  | cons c cs ih =>
    unfold Machine.visitChars
    apply visit_orderly hv hnext
    intro acc
    apply ih

theorem visitEntries_orderly (acc : σ) (entries : List (String × Value))
    : (Machine.visitEntries visit acc entries).Orderly := by
  induction entries generalizing acc with
  | nil => exact (Run.pure_clean acc).orderly
  | cons entry rest ih =>
    unfold Machine.visitEntries
    apply Run.Orderly.bind_yields
    . apply Run.Orderly.lettingGo
      apply (hm.quiet (.keep (.entries rest) rfl)).bind_orderly
      intro
      apply hv
    . intro visited
      cases visited with
      | stop acc => exact .inl (Run.pure_clean acc)
      | next acc' =>
        right
        refine ⟨?_, ih acc'⟩
        apply Run.Yields.lettingGo
        apply Run.Yields.bind
        intro
        apply hnext

theorem visitItems_orderly (container : Value) (acc : σ) (n : Nat) (index : Int64)
    : (m.visitItems container visit acc n index).Orderly := by
  induction n generalizing acc index with
  | zero => exact (Run.pure_clean acc).orderly
  | succ n ih =>
    unfold Machine.visitItems
    apply (hm.quiet (.getIndex container _)).bind_orderly
    intro item
    apply visit_orderly hv hnext
    intro acc
    apply ih

theorem visitSteps_orderly (step : Value) (acc : σ) (fuel : Nat) (index : Int64)
    : (m.visitSteps step visit acc fuel index).Orderly := by
  induction fuel generalizing acc index with
  | zero => exact Run.exhausted_orderly
  | succ fuel ih =>
    unfold Machine.visitSteps
    apply (hm.quiet (.invoke step .undefined [])).bind_orderly
    intro answer
    apply Run.Orderly.bind_yields
    . apply Run.Orderly.lettingGo
      apply (hm.quiet (.hold answer)).bind_orderly
      intro
      apply (hm.quiet (.stepItem? answer)).bind_orderly
      intro found
      cases found with
      | none => exact (Run.pure_clean _).orderly
      | some item => apply hv
    . intro visited
      cases visited with
      | stop acc => exact .inl (Run.pure_clean acc)
      | next acc' =>
        right
        refine ⟨?_, ih acc' _⟩
        apply Run.Yields.lettingGo
        apply Run.Yields.bind
        intro
        apply Run.Yields.bind
        intro found
        cases found with
        | none => exact Run.pure_yields (by simp)
        | some item => apply hnext

theorem iterateValue_orderly (value : Value) (acc : σ) : (m.iterateValue value visit acc).Orderly := by
  unfold Machine.iterateValue
  apply (hm.quiet (.findHook value _)).bind_orderly
  intro hook
  split
  . apply (hm.quiet (.invoke _ .undefined [])).bind_orderly
    intro step
    apply (hm.quiet (.hold step)).bind_orderly
    intro
    apply (hm.quiet (.isCallable step)).bind_orderly
    intro callable
    apply Run.Orderly.ite
    . exact visitSteps_orderly hm hv hnext step acc m.fuel 0
    . exact (hm.quiet (.fail _)).orderly
  . split
    . exact visitWords_orderly hv hnext acc _ 0 0
    . apply (hm.quiet .getHeap).bind_orderly
      intro heap
      exact visitEntries_orderly hm hv hnext acc _
    . exact visitChars_orderly hv hnext acc _ 0
    . apply (hm.quiet .getHeap).bind_orderly
      intro heap
      exact visitItems_orderly hm hv hnext _ acc _ 0
    . apply (hm.quiet .getHeap).bind_orderly
      intro heap
      exact visitItems_orderly hm hv hnext _ acc _ 0
    . apply (hm.quiet .getHeap).bind_orderly
      intro heap
      exact (hm.quiet (.raise _)).orderly

theorem iterate_orderly (source : Source) (acc : σ) : (m.iterate source visit acc).Orderly := by
  unfold Machine.iterate
  split
  . apply (hm.quiet (.eval Level.expr_ne_call _)).bind_orderly
    intro first
    apply (hm.quiet (.rangeBound first _)).bind_orderly
    intro first
    apply (hm.quiet (.eval Level.expr_ne_call _)).bind_orderly
    intro last
    apply (hm.quiet (.rangeBound last _)).bind_orderly
    intro last
    rw [Machine.visitRange_eq]
    exact visitWords_orderly hv hnext acc _ 0 first
  . apply (hm.quiet (.evalHeld Level.expr_ne_call _)).bind_orderly
    intro value
    exact iterateValue_orderly hm hv hnext value acc

end Iterate

theorem execForEach_orderly (label index : Option String) (value : String) (source : Source)
    (body : List Stmt)
    : (m.execForEach label index value source body).Orderly := by
  unfold Machine.execForEach
  apply withBlock_orderly hm
  apply iterate_orderly hm
  . intro acc i item
    apply (hm.quiet (.bindItem Level.expr_ne_call value index i item)).bind_orderly
    intro
    apply (execBlock_orderly hm body).bind
    intro
    apply Run.leavesLoop_bind_clean
    intro leaves
    cases leaves with
    | true => exact Run.pure_clean _
    | false => exact Run.pure_clean _
  . intro acc i item acc'
    apply Run.Yields.bind
    intro
    apply Run.Yields.bind
    intro
    exact Run.leavesLoop_yields (Run.pure_yields nofun) (Run.pure_quiet _)

theorem execClass_quiet (code : ClassDef) : (m.execClass code).Quiet := by
  cases code with
  | mk name exported bases members statics =>
    unfold Machine.execClass
    apply (hm.quiet (.checkExport exported)).bind
    intro
    apply (hm.quiet (.evalBases Level.expr_ne_call bases)).bind
    intro bases
    apply (hm.quiet (.declare name bases (.declaredMembers Level.expr_ne_call name members))).bind
    intro type
    apply (hm.quiet (.evalMembers Level.expr_ne_call type statics)).bind
    intro statics
    refine Run.Quiet.bind (hm.quiet (.modifyHeap _ fun h => .setStatics h type statics)) ?_
    intro
    split
    . apply (hm.quiet (.setExport name _)).bind
      intro
      apply Run.setRetVal_quiet
    . apply Run.setRetVal_quiet

theorem execExtend_quiet (exported : Bool) (target : Expr) (items : List MemberDef)
    : (m.execExtend exported target items).Quiet := by
  unfold Machine.execExtend
  apply (hm.quiet (.checkExport exported)).bind
  intro
  apply (hm.quiet (.evalType Level.expr_ne_call _ target)).bind
  intro type
  apply (hm.quiet .getHeap).bind
  intro heap
  apply (hm.quiet (.execExtensions Level.expr_ne_call exported _ items)).bind
  intro
  apply Run.setRetVal_quiet

theorem execDefer_quiet (code : Call) (untilBlockEnds : Bool) : (m.execDefer code untilBlockEnds).Quiet := by
  unfold Machine.execDefer
  apply (hm.quiet (.evalHeld Level.expr_ne_call _)).bind
  intro callee
  apply (hm.quiet (.isCallable callee)).bind
  intro callable
  split
  . apply (hm.quiet (.evalArgs Level.expr_ne_call _)).bind
    intro args
    apply (hm.quiet (.placeArgs callee args [])).bind
    intro args
    split
    . exact hm.quiet (.addBlockDefer Level.expr_ne_call callee args _)
    . apply Run.leaves_of_ok
      intro s
      exact ⟨(), s.withContext _, rfl, rfl⟩
  . split
    . exact Run.pure_quiet ()
    . exact hm.quiet (.notCallable callee)

theorem execKind_orderly (kind : StmtKind) : (m.execKind kind).Orderly := by
  cases kind with
  | expr value =>
    apply (hm.quiet (.eval Level.expr_ne_call value)).bind_orderly
    intro value
    exact (Run.setRetVal_quiet value).orderly
  | block body => exact execBlock_orderly hm body
  | cond arms otherwise => exact execIf_orderly hm otherwise arms
  | loop label start check next body => exact execLoop_orderly hm label start check next body
  | forEach label index value source body => exact execForEach_orderly hm label index value source body
  | whileDo label check body => exact runWhile_orderly hm label check body m.fuel
  | doWhile label check body => exact runDoWhile_orderly hm label check body m.fuel
  | breakLoop label => exact (Run.setFlow_clean _).orderly
  | continueLoop label => exact (Run.setFlow_clean _).orderly
  | ret value =>
    apply (hm.quiet (.evalOptional Level.expr_ne_call value)).bind_orderly
    intro value
    apply (Run.setRetVal_quiet value).bind_orderly
    intro
    exact (Run.setFlow_clean _).orderly
  | switch value cases otherwise =>
    apply (hm.quiet (.evalHeld Level.expr_ne_call value)).bind_orderly
    intro value
    exact execSwitch_orderly hm value otherwise cases
  | «export» name value =>
    apply (hm.quiet (.checkExport true)).bind_orderly
    intro
    apply (hm.quiet (.eval Level.expr_ne_call value)).bind_orderly
    intro value
    apply (hm.quiet (.setExport name value)).bind_orderly
    intro
    exact (Run.setRetVal_quiet value).orderly
  | cls code => exact (execClass_quiet hm code).orderly
  | extend exported target items => exact (execExtend_quiet hm exported target items).orderly
  | defer code => exact (execDefer_quiet hm code false).orderly
  | blockDefer code => exact (execDefer_quiet hm code true).orderly
  | attempt body handler cleanup => exact execAttempt_orderly hm body handler cleanup
  | fallback stmt body => exact execGuarded_orderly hm (hm.exec stmt) _
  | assert condition message => exact (hm.quiet (.execAssert Level.expr_ne_call condition message)).orderly
  | throw value => exact (hm.quiet (.execThrow Level.expr_ne_call value)).orderly

theorem execStmt_orderly (stmt : Stmt) : (m.execStmt stmt).Orderly := by
  cases stmt with
  | mk pos kind =>
    have hposition : (Run.setPosition pos).Quiet := by
      apply Run.leaves_of_ok
      intro s
      exact ⟨(), s.withContext _, rfl, rfl⟩
    apply hposition.bind_orderly
    intro
    exact (execKind_orderly hm kind).locating

theorem evalBlock_orderly (stmts : List Stmt) : (m.evalBlock stmts).Orderly := by
  unfold Machine.evalBlock
  apply (execAll_orderly hm stmts).bind
  intro
  apply Run.finishFlow_clean.bind
  intro
  apply Run.read_clean

theorem runRootDefers_quiet (raised : List Value) : (m.runRootDefers raised).Quiet := by
  unfold Machine.runRootDefers
  apply (hm.quiet .getStack).bind
  intro stack
  apply Run.Quiet.bind
  . apply Run.leaves_of_ok
    intro s
    exact ⟨(), s.withContext _, rfl, rfl⟩
  . intro _ s t h
    exact (hm.kept.release _ _ s t h nofun).1

/-- The statements of a module are all done when the calls that were put off until then are made. -/
theorem runModule_orderly (stmts : List Stmt) : (m.runModule stmts).Orderly := by
  intro s t e hs h
  rcases Run.bind_raised h with h | ⟨r, u, hr, h⟩
  . exact absurd h (Run.capture_ne_raised _ _ _ _)
  . have hu : u.context.flow = .normal := by
      cases r with
      | ok a => exact Run.Yields.bind (fun _ => Run.finishFlow_yields) s u (Run.captured_ok hr)
      | error e' =>
        have hbody : (do m.execAll stmts; Run.finishFlow : Run Unit).Orderly := by
          apply (execAll_orderly hm stmts).bind
          intro
          exact Run.finishFlow_clean
        exact hbody s u e' hs (Run.captured_error hr)
    rw [← hu]
    refine Run.Quiet.bind (runRootDefers_quiet hm _) ?_ u t (.raised h)
    intro deferred
    apply Run.Quiet.bind (Run.settle_quiet r deferred)
    intro
    apply (hm.quiet .exports).bind
    intro exports
    apply (Run.setRetVal_quiet _).bind
    intro
    exact Run.pure_quiet _

end Rules

end ScriptEngine
