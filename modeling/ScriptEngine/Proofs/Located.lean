import ScriptEngine.Proofs.Conduct
import ScriptEngine.Proofs.Fatal

/-!
This module contains where errors say that they arose. A statement gives an error that passes it a
position and a backtrace, and the outermost entry of a backtrace is the module. What no statement
encloses is located where it arises, apart from the errors of calls that were put off until the
module ends.
-/

namespace ScriptEngine

/-- The outermost entry is the module. -/
def Activation.FromModule (trace : List Activation) : Prop := ∃ pos, trace.getLast? = some ⟨"<module>", pos⟩

namespace Error

/-- An error with a position and a backtrace from the module on. -/
structure Located (e : Error) : Prop where
  position : e.position.isSome = true
  backtrace : ∃ trace, e.backtrace = some trace ∧ Activation.FromModule trace

/-- An error whose backtrace, if it has one, is one from the module on. -/
def Rooted (e : Error) : Prop := ∀ trace, e.backtrace = some trace → Activation.FromModule trace

/-- An error that was given a position and a backtrace. -/
structure Placed (e : Error) : Prop where
  position : e.position.isSome = true
  backtrace : e.backtrace.isSome = true

theorem Placed.located {e : Error} (h : e.Placed) (hrooted : e.Rooted) : e.Located := by
  rcases Option.isSome_iff_exists.mp h.backtrace with ⟨trace, htrace⟩
  exact ⟨h.position, trace, htrace, hrooted trace htrace⟩

end Error

theorem State.backtrace_located (s : State) (e : Error)
    : (s.located e).backtrace = some (e.backtrace.getD s.context.stack.backtrace) := by
  unfold State.located Error.locate
  cases e.backtrace with
  | none => rfl
  | some known => rfl

theorem State.located_placed (s : State) (e : Error) : (s.located e).Placed :=
  ⟨rfl, by rw [s.backtrace_located]; rfl⟩

namespace Stack

/-- A stack whose outermost frame is that of a module. -/
def Rooted (s : Stack) : Prop := s.root.kind = .root

theorem getLast?_outline (s : Stack) : s.outline.getLast? = some (s.root.kind, s.root.scope) := by
  unfold outline frames root
  rw [List.getLast?_map, List.getLast?_cons, List.getLastD_eq_getLast?]
  rfl

theorem rooted_of_outline {s t : Stack} (h : t.outline = s.outline) (hs : s.Rooted) : t.Rooted := by
  have hlast := t.getLast?_outline
  rw [h, getLast?_outline] at hlast
  injection hlast with hlast
  injection hlast with hkind _
  unfold Rooted
  rw [← hkind]
  exact hs

theorem rooted_push {s : Stack} {frame : Frame} (hs : s.Rooted) : (s.push frame).Rooted := by
  unfold Rooted root push frames
  rw [List.getLastD_cons]
  exact hs

theorem fromModule_go {frames : List Frame} {frame : Frame} (hroot : (frames.getLastD frame).kind = .root)
    (pending : Option Position)
    : Activation.FromModule (backtrace.go pending (frame :: frames)) := by
  induction frames generalizing frame pending with
  | nil =>
    have hroot : frame.kind = .root := hroot
    unfold backtrace.go
    rw [hroot]
    exact ⟨_, rfl⟩
  | cons next frames ih =>
    rw [List.getLastD_cons] at hroot
    -- The entry of this frame, if it has one, comes before those of the frames around it.
    have hcons (a : Activation) (pending : Option Position)
        : Activation.FromModule (a :: backtrace.go pending (next :: frames)) := by
      rcases ih hroot pending with ⟨pos, hpos⟩
      refine ⟨pos, ?_⟩
      rw [List.getLast?_cons, hpos]
      rfl
    rw [backtrace.go]
    split
    . exact hcons _ none
    . exact hcons _ _
    . exact ih hroot _

theorem fromModule_backtrace {s : Stack} (hs : s.Rooted) : Activation.FromModule s.backtrace :=
  fromModule_go hs none

end Stack

/-- The errors that are raised in a context of a module have a backtrace from the module on, or none. -/
structure State.ErrorsRooted (_l : Level) (s : State) (o : Outcome) (t : State) : Prop where
  outline (ho : o ≠ .died) : t.context.stack.outline = s.context.stack.outline
  rooted (hs : s.context.stack.Rooted) {e : Error} (he : o = .raised e) : e.Rooted

theorem State.ErrorsRooted.ok {l : Level} {s t : State} (h : t.context.stack.outline = s.context.stack.outline)
    : State.ErrorsRooted l s .ok t :=
  ⟨fun _ => h, fun _ _ he => nomatch he⟩

theorem errorsRooted_conduct : Conduct State.ErrorsRooted where
  calm h := .ok h.outline
  calmed h h' := ⟨fun ho => h'.outline.trans (h.outline ho), h.rooted⟩
  trans h h' :=
    ⟨fun ho => (h'.outline ho).trans (h.outline nofun),
      fun hs => h'.rooted (Stack.rooted_of_outline (h.outline nofun) hs)⟩
  later h h' := ⟨fun _ => (h'.outline nofun).trans (h.outline nofun), h.rooted⟩
  handled h := .ok (h.outline nofun)
  ofCall h := ⟨h.outline, h.rooted⟩
  ofExpr _ h := ⟨h.outline, h.rooted⟩
  raise he := by
    refine ⟨fun _ => rfl, ?_⟩
    intro _ e' heq trace htrace
    injection heq with heq
    rw [← heq, he] at htrace
    cases htrace
  located {_ s t e} h := by
    refine ⟨fun _ => h.outline nofun, ?_⟩
    intro hs e' heq trace htrace
    injection heq with heq
    rw [← heq, State.backtrace_located] at htrace
    injection htrace with htrace
    rw [← htrace]
    cases hknown : e.backtrace with
    | none => exact Stack.fromModule_backtrace (Stack.rooted_of_outline (h.outline nofun) hs)
    | some known => exact h.rooted hs rfl known hknown
  force _ _ _ := .ok rfl
  assign _ := .ok rfl
  frame _ h ho := ⟨fun _ => Stack.outline_pop (h.outline ho), fun hs => h.rooted (Stack.rooted_push hs)⟩
  broken _ _ := ⟨nofun, fun _ _ he => nomatch he⟩
  fork hforks h := by
    rcases hforks with ⟨scope, position, exports, rfl, _⟩
    exact ⟨fun _ => rfl, fun _ => h.rooted rfl⟩
  alone _ := .ok rfl

/-- The errors that the functions and the importer of a host raise have no backtrace of their own. -/
def Host.RaisesRooted (host : Host) : Prop := host.Conducts State.ErrorsRooted

theorem machine_raisesRooted {host : Host} (hhost : host.RaisesRooted) (n : Nat)
    : (host.machine n).Conducts State.ErrorsRooted := by
  apply machine_conducts errorsRooted_conduct hhost
  intro m fuel hm
  refine importModule_obeys errorsRooted_conduct hhost ?_ fuel hm
  intro s modules
  exact .ok rfl

namespace Run

variable {α β : Type}

/-- Every error that a computation raises was given a position and a backtrace. -/
def Places (x : Run α) : Prop := ∀ s e t, x s = .error (.raised e) t → e.Placed

theorem Places.bind {x : Run α} {f : α → Run β} (hx : x.Places) (hf : ∀ a, (f a).Places) : (x >>= f).Places := by
  intro s e t h
  rcases bind_raised h with h | ⟨a, u, _, h⟩
  . exact hx s e t h
  . exact hf a u e t h

theorem Places.lettingGo {x : Run α} (hx : x.Places) : (lettingGo x).Places := by
  intro s e t h
  rcases gives_lettingGo (o := .raised e) h with ⟨u, hu, _⟩
  exact hx s e u hu

theorem places_of_ok {x : Run α} (h : ∀ s, ∃ a t, x s = .ok a t) : x.Places := by
  intro s e t ht
  rcases h s with ⟨a, u, hx⟩
  rw [hx] at ht
  cases ht

theorem locating_places (x : Run α) : (locating x).Places := by
  intro s e t h
  rcases gives_capture_bind (o := .raised e) h with ⟨_, _, _, h⟩ | ⟨inner, u, _, h⟩ | ⟨h, _⟩
  . cases h
  . injection h with h _
    injection h with h
    rw [← h]
    exact u.located_placed inner
  . cases h

theorem finishFlow_places : finishFlow.Places := by
  apply (places_of_ok fun s => ⟨_, _, rfl⟩ : takeFlow.Places).bind
  intro flow
  cases flow with
  | normal => exact places_of_ok fun s => ⟨_, _, rfl⟩
  | ret => exact places_of_ok fun s => ⟨_, _, rfl⟩
  | jump kind label => exact locating_places (raiseError (.ofCause (.unmatchedJump kind label)))

end Run

theorem exec_places (host : Host) (n : Nat) (stmt : Stmt) : ((host.machine n).exec stmt).Places := by
  cases n with
  | zero =>
    intro s e t h
    injection h with h
    injection h
  | succ n =>
    cases stmt with
    | mk pos kind =>
      have hexec : ((host.machine n).execStmt (.mk pos kind)).Places := by
        apply (Run.places_of_ok fun s => ⟨_, _, rfl⟩ : (Run.setPosition pos).Places).bind
        intro
        exact Run.locating_places _
      intro s e t h
      exact hexec.lettingGo s e t ((congrFun (above_exec host n (host.machine n) (.mk pos kind)) s).symm.trans h)

theorem execAll_places (host : Host) (n : Nat) (stmts : List Stmt) : ((host.machine n).execAll stmts).Places := by
  induction stmts with
  | nil => exact Run.places_of_ok fun s => ⟨_, _, rfl⟩
  | cons stmt stmts ih =>
    unfold Machine.execAll
    apply (exec_places host n stmt).bind
    intro
    apply (Run.places_of_ok fun s => ⟨_, _, rfl⟩ : Run.flow.Places).bind
    intro flow
    split
    . exact ih
    . exact Run.places_of_ok fun s => ⟨_, _, rfl⟩

theorem makeCall_raised {m : Machine} {call : Deferred} {calls : List Deferred} {s t : State} {e : Error}
    (h : m.makeCall call calls s = .error (.raised e) t)
    : ∃ v w, m.invoke call.callee .undefined call.args v = .error (.raised e) w := by
  rcases Run.gives_lettingGo (o := .raised e) h with ⟨u, hu, _⟩
  rcases Run.hold_apply call.callee s with ⟨held, hheld⟩
  exact ⟨_, u, (Run.bind_ok hheld).symm.trans hu⟩

theorem Handled.first {m : Machine} {calls : List Deferred} {s t : State} {outcomes : List (Option Error)}
    (h : Handled m calls s outcomes t) {e : Error} (he : firstError outcomes = some e)
    : e.Placed ∨ ∃ call ∈ calls, ∃ v w, m.invoke call.callee .undefined call.args v = .error (.raised e) w := by
  induction h with
  | done s => cases he
  | @called call calls s t u r outcomes _ _ hcall _ ih =>
    rw [firstError_cons, Option.or_eq_some_iff] at he
    rcases he with hr | ⟨_, he⟩
    . cases r with
      | ok value => cases hr
      | error e' =>
        injection hr with hr
        rw [hr] at hcall
        exact .inr ⟨call, .head _, makeCall_raised (Run.captured_error hcall)⟩
    . rcases ih he with hplaced | ⟨call, hmem, hraised⟩
      . exact .inl hplaced
      . exact .inr ⟨call, .tail _ hmem, hraised⟩
  | skipped _ _ _ ih =>
    rw [firstError_cons, Option.none_or] at he
    rcases ih he with hplaced | ⟨call, hmem, hraised⟩
    . exact .inl hplaced
    . exact .inr ⟨call, .tail _ hmem, hraised⟩
  | refused =>
    rw [firstError_cons, Option.some_or] at he
    injection he with he
    rw [← he]
    exact .inl (State.located_placed _ _)

theorem settled_ok {first : Option Error} {a : Unit} {e : Error} (h : settled (.ok a) first = .error e)
    : first = some e := by
  cases first with
  | none => cases h
  | some e' =>
    injection h with h
    rw [h]

theorem runModule_first {host : Host} {n : Nat} {stmts : List Stmt} {s t u : State} {r : Except Error Unit}
    {e : Error} (hr : Run.capture (do (host.machine (n + 1)).execAll stmts; Run.finishFlow) s = .ok r u)
    (h : (host.machine (n + 1)).runModule stmts s = .error (.raised e) t)
    : ∃ outcomes v w, Handled (host.machine n) u.context.stack.root.defers v outcomes w ∧
        settled r (firstError outcomes) = .error e := by
  rcases runModule_handled host n hr with ⟨held, hmodule⟩
  rcases (hmodule (.error e) t).mp (Run.capture_raised h) with ⟨outcomes, w, hhandled, hresult⟩
  refine ⟨outcomes, _, w, hhandled, ?_⟩
  unfold exported at hresult
  split at hresult
  . next heq =>
    injection hresult with hresult _
    injection hresult with hresult
    rw [hresult, heq]
  . injection hresult with hresult _
    cases hresult

/--
An error that leaves a statement, a block or a module is located. The exception is the error of a
module whose statements all ended well: if a call that was put off until its end raised it then it
is given as it is.
-/
theorem errors_are_located (host : Host) (hhost : host.RaisesRooted) (n : Nat) (s : State)
    (hs : s.context.stack.Rooted)
    : let m := host.machine (n + 1)
      (∀ stmt e t, m.exec stmt s = .error (.raised e) t → e.Located) ∧
      (∀ stmts e t, m.evalBlock stmts s = .error (.raised e) t → e.Located) ∧
      (∀ stmts e t, m.runModule stmts s = .error (.raised e) t →
        e.Located ∨
          ∃ u, (do m.execAll stmts; Run.finishFlow : Run Unit) s = .ok () u ∧
            ∃ call ∈ u.context.stack.root.defers, ∃ v w,
              (host.machine n).invoke call.callee .undefined call.args v = .error (.raised e) w) := by
  intro m
  have hm : m.Conducts State.ErrorsRooted := machine_raisesRooted hhost (n + 1)
  have hbody (stmts : List Stmt) : (do m.execAll stmts; Run.finishFlow : Run Unit).Places := by
    apply (execAll_places host (n + 1) stmts).bind
    intro
    exact Run.finishFlow_places
  refine ⟨?_, ?_, ?_⟩
  . intro stmt e t h
    exact (exec_places host (n + 1) stmt s e t h).located ((hm.exec stmt s (.raised e) t h).rooted hs rfl)
  . intro stmts e t h
    have hplaces : (m.evalBlock stmts).Places := by
      apply (execAll_places host (n + 1) stmts).bind
      intro
      apply Run.finishFlow_places.bind
      intro
      exact Run.places_of_ok fun s => ⟨_, _, rfl⟩
    have hrooted := (evalBlock_obeys errorsRooted_conduct hm stmts s (.raised e) t h).rooted hs rfl
    exact (hplaces s e t h).located hrooted
  . intro stmts e t h
    have hrooted := (runModule_obeys errorsRooted_conduct hm stmts s (.raised e) t h).rooted hs rfl
    rcases Run.gives_capture_bind (o := .raised e) h with ⟨a, u, hu, _⟩ | ⟨inner, u, hu, _⟩ | ⟨h, _⟩
    . rcases runModule_first (Run.capture_ok hu) h with ⟨outcomes, v, w, hhandled, hresult⟩
      rcases hhandled.first (settled_ok hresult) with hplaced | hraised
      . exact .inl (hplaced.located hrooted)
      . exact .inr ⟨u, hu, hraised⟩
    . rcases runModule_first (Run.capture_raised hu) h with ⟨_, _, _, _, hresult⟩
      injection hresult with hresult
      rw [hresult] at hu
      exact .inl ((hbody stmts s e u hu).located hrooted)
    . cases h

/-- A function that fails, called at the top of a module. -/
theorem scripted_errors_are_located
    : let host := Host.scripted fun _ => some []
      let s := Engine.bareState {} .silent 0
      let failing : FuncDef := .mk (some "f") [] false [.mk ⟨"main", 2⟩ (.throw (.str "failed"))]
      let stmt := Stmt.mk ⟨"main", 1⟩ (.expr (.call (.mk (.func failing) [] false)))
      host.RaisesRooted ∧ s.context.stack.Rooted ∧
        ∃ e t, (host.machine 10).evalBlock [stmt] s = .error (.raised e) t ∧ e.cause = .thrown ∧ e.Located := by
  intro host s failing stmt
  have hhost : host.RaisesRooted := scripted_conducts errorsRooted_conduct
  have hs : s.context.stack.Rooted := rfl
  have hcause : ((host.machine 10).evalBlock [stmt]).cause? s = some .thrown := by decide +kernel
  rcases Run.raised_of_cause hcause with ⟨e, t, h, he⟩
  exact ⟨hhost, hs, e, t, h, he, (errors_are_located host hhost 9 s hs).2.1 [stmt] e t h⟩

-- The exception: the host's function fails where no statement is run any more.
example :
    let s := Engine.stateAfter (do Run.setGlobal "f" (← Run.newHostFunction "f" ⟨"f", []⟩))
      (Engine.bareState {} .silent 0)
    let stmts := [Stmt.mk ⟨"main", 1⟩ (.defer (.mk (.ident "f") [] false))]
    (match (Host.none.machine 9).runModule stmts s with
      | .error (.raised e) _ => some (e.position, e.backtrace)
      | _ => none) = some (none, none) := by
  decide +kernel

end ScriptEngine
