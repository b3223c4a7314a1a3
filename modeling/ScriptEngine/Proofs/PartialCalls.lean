import ScriptEngine.Proofs.Callees
import ScriptEngine.Proofs.Keywords
import ScriptEngine.Proofs.Natives

/-!
This module contains calls with holes. Such a call evaluates what is called and the arguments that are there, and
makes a function. A call of that function fills the holes, so it is a call with the arguments in the places of the
holes, one level deeper. If an argument is missing, nothing is called.
-/

namespace ScriptEngine

/-- What is evaluated for an argument. A hole needs no evaluation. -/
def Arg.operand? : Arg → Option Expr
  | .positional value | .keyword _ value | .spread value => some value
  | .hole _ => none

namespace Args

/-- The arguments of a call, given the values of those that are no holes. -/
def pend : List Arg → List Value → List PendingArg
  | .hole index :: args, values => .hole index :: pend args values
  | .positional _ :: args, value :: values => .positional value :: pend args values
  | .keyword name _ :: args, value :: values => .keyword name value :: pend args values
  | .spread _ :: args, value :: values => .spread value :: pend args values
  | _, _ => []

/-- The argument at an index. A negative index counts from the end. -/
def supplied? (supplied : List Value) (index : Int) : Option Value :=
  if 0 ≤ index then supplied[index.toNat]?
  else if 0 ≤ supplied.length + index then supplied[(supplied.length + index).toNat]?
  else none

end Args

/-- An argument with a hole filled, if there is something to fill it. -/
def PendingArg.fill (supplied : List Value) : PendingArg → PendingArg
  | .hole index =>
    match Args.supplied? supplied index with
    | some value => .positional value
    | none => .hole index
  | arg => arg

/-- The cause of the error when there is no argument for a hole. -/
def Cause.unfilled : Cause := .host "placeholder value not given"

namespace Args

variable {heap : Heap} {params : List String} {callee : String} {supplied : List Value}

theorem fillHole_eq (index : Int) (supplied : List Value)
    : fillHole index supplied =
        match supplied? supplied index with
        | some value => .ok value
        | none => .error .unfilled := by
  unfold fillHole supplied?
  by_cases hindex : 0 ≤ index
  . rw [if_neg (by omega), if_pos hindex]
    dsimp only
    rw [if_pos hindex]
    rfl
  . rw [if_pos (by omega), if_neg hindex, Int.add_comm]
    rfl

theorem supplied?_nil (index : Int) : supplied? [] index = none := by
  unfold supplied?
  split
  . rfl
  . split
    . rfl
    . rfl

/-- Laying arguments out with some that fill the holes is laying them out with the holes filled. -/
theorem place_go_fill (args : List Value) (pending : List PendingArg)
    : place.go heap params callee supplied args pending =
        place.go heap params callee [] args (pending.map (·.fill supplied)) := by
  induction pending generalizing args with
  | nil => rfl
  | cons arg pending ih =>
    rw [List.map_cons]
    cases arg with
    | positional value => exact ih (args ++ [value])
    | keyword name value =>
      have hfill : (PendingArg.keyword name value).fill supplied = .keyword name value := rfl
      rw [hfill, place.go, place.go]
      cases putKeyword params callee args name value with
      | ok args => exact ih args
      | error cause => rfl
    | spread value =>
      have hfill : (PendingArg.spread value).fill supplied = .spread value := rfl
      rw [hfill, place.go, place.go]
      cases heap.items? value with
      | some items => exact ih (args ++ items.toList)
      | none => rfl
    | hole index =>
      rw [place.go, PendingArg.fill, fillHole_eq]
      cases supplied? supplied index with
      | some value => exact ih (args ++ [value])
      | none =>
        dsimp only
        rw [place.go, fillHole_eq, supplied?_nil]

/-- If there is no argument for a hole, what comes before it is laid out, and then there is an error. -/
theorem place_go_unfilled {index : Int} (hnone : supplied? supplied index = none) (args : List Value)
    (front rest : List PendingArg)
    : place.go heap params callee supplied args (front ++ .hole index :: rest) =
        match place.go heap params callee supplied args front with
        | .ok _ => .error .unfilled
        | .error cause => .error cause := by
  rw [place_go_append]
  cases place.go heap params callee supplied args front with
  | ok args =>
    dsimp only
    rw [place.go, fillHole_eq, hnone]
  | error cause => rfl

end Args

namespace Machine

variable {m : Machine} {s : State} {callee : Value} {pending : List PendingArg} {supplied : List Value}
  {isOptional : Bool}

/-- The arguments are evaluated once each and in order, and the holes stay. -/
theorem evalArgs_eq (m : Machine) (args : List Arg)
    : m.evalArgs args = (do
        let values ← (args.filterMap Arg.operand?).mapM m.evalHeld
        return Args.pend args values) := by
  unfold evalArgs
  induction args with
  | nil => rfl
  | cons arg args ih =>
    rw [List.mapM_cons, ih]
    cases arg with
    | positional value => simp [Arg.operand?, List.mapM_cons, Args.pend]
    | keyword name value => simp [Arg.operand?, List.mapM_cons, Args.pend]
    | spread value => simp [Arg.operand?, List.mapM_cons, Args.pend]
    | hole index =>
      have hoperands : (Arg.hole index :: args).filterMap Arg.operand? = args.filterMap Arg.operand? := rfl
      rw [hoperands]
      simp [Args.pend]

theorem any_isKeyword_fill (pending : List PendingArg) (supplied : List Value)
    : (pending.map (·.fill supplied)).any PendingArg.isKeyword = pending.any PendingArg.isKeyword := by
  rw [List.any_map]
  congr 1
  funext arg
  cases arg with
  | hole index =>
    rw [Function.comp_apply, PendingArg.fill]
    cases Args.supplied? supplied index <;> rfl
  | _ => rfl

theorem placeArgs_fill (callee : Value) (pending : List PendingArg) (supplied : List Value)
    : m.placeArgs callee pending supplied = m.placeArgs callee (pending.map (·.fill supplied)) [] := by
  unfold placeArgs Args.place
  simp only [any_isKeyword_fill, Args.place_go_fill [] pending]

theorem applyArgs_fill (callee : Value) (pending : List PendingArg) (supplied : List Value) (isOptional : Bool)
    : m.applyArgs callee pending supplied isOptional =
        m.applyArgs callee (pending.map (·.fill supplied)) [] isOptional := by
  unfold applyArgs
  rw [placeArgs_fill]

/-- Nothing is called as long as an argument is missing. -/
theorem applyArgs_unfilled {front rest : List PendingArg} {index : Int} {params : List String}
    (hpending : pending = front ++ .hole index :: rest) (hnone : Args.supplied? supplied index = none)
    (hparams : pending.any PendingArg.isKeyword = true → m.argNames callee s = .ok params s)
    (hno : pending.any PendingArg.isKeyword = false → params = [])
    : m.applyArgs callee pending supplied isOptional s =
        if s.heap.isCallable callee then
          match Args.place s.heap params (s.heap.calleeName callee) front supplied with
          | .ok _ => .error (.raised (.ofCause .unfilled)) s
          | .error cause => .error (.raised (.ofCause cause)) s
        else if isOptional then .ok .undefined s
        else .error (.raised (.ofCause (.notCallable (s.heap.typeName callee)))) s := by
  cases hcallable : s.heap.isCallable callee with
  | true =>
    have hplaced : m.placeArgs callee pending supplied s = _ := placeArgs_apply hparams hno
    unfold Args.place at hplaced ⊢
    rw [hpending, Args.place_go_unfilled hnone, ← hpending] at hplaced
    rw [if_pos rfl]
    cases hplace : Args.place.go s.heap params (s.heap.calleeName callee) supplied [] front with
    | ok args =>
      rw [hplace] at hplaced
      exact applyArgs_unplaced hcallable hplaced
    | error cause =>
      rw [hplace] at hplaced
      exact applyArgs_unplaced hcallable hplaced
  | false =>
    unfold applyArgs
    rw [Run.bind_ok (isCallable_apply callee s), hcallable]
    cases isOptional <;> rfl

/-- A call of a function that was made by a call with holes is that call, one level deeper, with the holes filled. -/
theorem invoke_partialCall (host : Host) (n : Nat) {ref : NativeRef} (this : Value)
    (hmade : s.heap.native ref = ⟨"", [], .partialCall callee pending isOptional⟩)
    : (host.machine (n + 1)).invoke (.native ref) this supplied s =
        Run.lettingGo
          (do
            Run.checkDepth
            Run.hold this
            Run.holdAll supplied
            Run.deeper ((host.machine n).applyArgs callee (pending.map (·.fill supplied)) [] isOptional)) s := by
  have hlevel : host.machine (n + 1) = host.above n (host.machine n) := rfl
  rw [hlevel, above_invoke, ← applyArgs_fill, invokeWith]
  apply lettingGo_congr _ rfl
  rw [Run.bind_apply, Run.bind_apply Run.checkDepth, Run.checkDepth_apply]
  by_cases hlimit : s.world.settings.maxDepth ≤ s.context.depth
  . rw [if_pos hlimit]
  . rw [if_neg hlimit]
    dsimp only
    rcases Run.hold_apply this s with ⟨held, hthis⟩
    rcases Run.holdAll_apply supplied { s with held := held } with ⟨held', hsupplied⟩
    have hopen : Run.openNative ref this supplied s = .ok (s.heap.native ref) { s with held := held' } := by
      unfold Run.openNative
      rw [Run.bind_ok hthis, Run.bind_ok hsupplied]
      rfl
    rw [Run.bind_ok hopen, Run.bind_ok hthis, Run.bind_ok hsupplied, hmade]
    rfl

end Machine

/--
A call with holes evaluates what is called and the arguments that are there, once each and in order, and calls
nothing. Whatever is evaluated then, the function that it makes stays what it is. In every state where it is that,
and with whatever arguments, a call of it is the call with the holes filled, one level deeper. If there is no
argument for a hole, nothing is called. What cannot be called is reported first, or `undefined` if the call is
optional, then an argument before the hole that cannot be laid out, and then the missing argument.
-/
theorem partial_calls_substitute (host : Host) {code : Call} (hbind : code.isBind = true)
    : (∀ m : Machine, m.evalCall code = do
        let callee ← m.evalHeld code.callee
        let values ← (code.args.filterMap Arg.operand?).mapM m.evalHeld
        Run.newNative ⟨"", [], .partialCall callee (Args.pend code.args values) code.isOptional⟩) ∧
      (∀ (m : Machine) (direct : Call), direct.isBind = false → m.evalCall direct = do
        let callee ← m.evalHeld direct.callee
        let values ← (direct.args.filterMap Arg.operand?).mapM m.evalHeld
        m.applyArgs callee (Args.pend direct.args values) [] direct.isOptional) ∧
      (host.KeepsNatives → ∀ n, (host.machine n).KeepsNatives) ∧
      ∀ (m : Machine) (s t : State) (made : Value), m.evalCall code s = .ok made t →
        ∃ callee values evaluated,
          (do
            let callee ← m.evalHeld code.callee
            return (callee, ← (code.args.filterMap Arg.operand?).mapM m.evalHeld)) s =
              .ok (callee, values) evaluated ∧
          let pending := Args.pend code.args values
          (∀ (n : Nat) (u : State) (this : Value) (supplied : List Value), t.heap.KeepsNatives u.heap →
            (host.machine (n + 1)).invoke made this supplied u =
              Run.lettingGo
                (do
                  Run.checkDepth
                  Run.hold this
                  Run.holdAll supplied
                  Run.deeper
                    ((host.machine n).applyArgs callee (pending.map (·.fill supplied)) [] code.isOptional)) u) ∧
          ∀ (n : Nat) (u : State) (supplied : List Value) (front rest : List PendingArg) (index : Int)
              (params : List String),
            pending = front ++ .hole index :: rest → Args.supplied? supplied index = none →
            (pending.any PendingArg.isKeyword = true → (host.machine n).argNames callee u = .ok params u) →
            (pending.any PendingArg.isKeyword = false → params = []) →
            (host.machine n).applyArgs callee (pending.map (·.fill supplied)) [] code.isOptional u =
              if u.heap.isCallable callee then
                match Args.place u.heap params (u.heap.calleeName callee) front supplied with
                | .ok _ => .error (.raised (.ofCause .unfilled)) u
                | .error cause => .error (.raised (.ofCause cause)) u
              else if code.isOptional then .ok .undefined u
              else .error (.raised (.ofCause (.notCallable (u.heap.typeName callee)))) u := by
  have hmake (m : Machine) : m.evalCall code = (do
      let callee ← m.evalHeld code.callee
      let values ← (code.args.filterMap Arg.operand?).mapM m.evalHeld
      Run.newNative ⟨"", [], .partialCall callee (Args.pend code.args values) code.isOptional⟩) := by
    unfold Machine.evalCall
    simp only [hbind, Machine.evalArgs_eq, bind_assoc, pure_bind, if_true]
  refine ⟨hmake, ?_, machine_keepsNatives, ?_⟩
  . intro m direct hdirect
    unfold Machine.evalCall
    simp only [hdirect, Machine.evalArgs_eq, bind_assoc, pure_bind, Bool.false_eq_true, if_false]
  . intro m s t made h
    rw [hmake] at h
    rcases Run.ok_of_bind h with ⟨callee, s', hcallee, h⟩
    rcases Run.ok_of_bind h with ⟨values, s'', hvalues, h⟩
    injection h with hmade ht
    refine ⟨callee, values, s'', ?_, ?_, ?_⟩
    . rw [Run.bind_ok hcallee, Run.bind_ok hvalues]
      rfl
    . intro n u this supplied hkeeps
      rw [← hmade]
      apply Machine.invoke_partialCall
      rw [← ht] at hkeeps
      exact hkeeps.native_of_made
    . intro n u supplied front rest index params hpending hnone hparams hno
      rw [← Machine.applyArgs_fill]
      exact Machine.applyArgs_unfilled hpending hnone hparams hno

/-- A function that gives its second argument, called twice with the last argument there and once with none. -/
theorem second_of_three_is_called
    : let m := Host.none.machine 12
      let inner := Host.none.machine 11
      let second := Stmt.funcDecl "second" ["a", "b", "c"] [.ofKind (.ret (some (.ident "b")))]
      let code := Call.mk (.ident "second") [.positional (.int 1), .hole (-1), .hole 0] false
      let s := Engine.stateAfter (m.exec second) (Engine.bareState {} .silent 0)
      let t := Engine.stateAfter (m.evalCall code) s
      let made := Value.native ⟨0⟩
      let u := Engine.stateAfter (m.invoke made .undefined [.int 7]) t
      let filled (values : List Value) := [PendingArg.positional (.int 1)] ++ values.map .positional
      code.isBind = true ∧ m.evalCall code s = .ok made t ∧ t.heap.KeepsNatives u.heap ∧
        (m.invoke made .undefined [.int 7]).int? t = some 7 ∧
        (m.invoke made .undefined [.int 8, .int 9]).int? u = some 9 ∧
        m.invoke made .undefined [.int 8, .int 9] u =
          Run.lettingGo
            (do
              Run.checkDepth
              Run.hold .undefined
              Run.holdAll [.int 8, .int 9]
              Run.deeper (inner.applyArgs (.func ⟨0⟩) (filled [.int 9, .int 8]) [] false)) u ∧
        inner.applyArgs (.func ⟨0⟩) [.positional (.int 1), .hole (-1), .hole 0] [] false t =
          .error (.raised (.ofCause .unfilled)) t := by
  intro m inner second code s t made u filled
  have hmade : m.evalCall code s = .ok made t := rfl
  have hbind : code.isBind = true := rfl
  rcases partial_calls_substitute .none hbind with ⟨_, _, hkeeps, hmakes⟩
  have hkept : t.heap.KeepsNatives u.heap := (hkeeps none_keepsNatives 12).invoke made .undefined [.int 7] t
  rcases hmakes m s t made hmade with ⟨callee, values, evaluated, heval, hcalls, hmissing⟩
  have hcallee : callee = .func ⟨0⟩ ∧ values = [.int 1] := by
    injection heval with hpair _
    injection hpair with hcallee hvalues
    exact ⟨hcallee.symm, hvalues.symm⟩
  rw [hcallee.1, hcallee.2] at hcalls hmissing
  refine ⟨hbind, hmade, hkept, by decide +kernel, by decide +kernel,
    hcalls 11 u .undefined [.int 8, .int 9] hkept, ?_⟩
  exact hmissing 11 t [] [.positional (.int 1)] [.hole 0] (-1) [] rfl rfl nofun fun _ => rfl

/--
A missing argument is not reported if there is nothing that could be called, and an argument before it that cannot
be laid out is reported instead.
-/
theorem missing_argument_is_not_reported
    : let run (callee : Expr) (args : List Arg) (isOptional : Bool) :=
        (Host.none.machine 20).evalBlock
          [.var "f" (.call (.mk callee args isOptional)), .expr (.call (.mk (.ident "f") [] false))]
      let s := Engine.bareState {} .silent 0
      Args.supplied? [] 0 = none ∧
        (run (.int 5) [.hole 0] false).cause? s = some (.notCallable "Int") ∧
        (run (.int 5) [.hole 0] true).cause? s = none ∧
        (run (.func (.mk none [] false [])) [.spread (.int 5), .hole 0] false).cause? s =
          some (.typeMismatch "Array for expanded arguments" "Int") ∧
        Cause.notCallable "Int" ≠ .unfilled := by
  decide +kernel

end ScriptEngine
