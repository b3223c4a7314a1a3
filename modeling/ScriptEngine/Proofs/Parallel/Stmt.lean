import ScriptEngine.Eval.Stmt
import ScriptEngine.Proofs.Parallel.Expr

/-!
This module contains the steps of the rules for statements. They leave values and signals in the
context, put calls off and change the position of the current frame.
-/

namespace ScriptEngine

/-- A `try` with a cleanup is the only statement that may do something else after a fatal error. -/
def StmtKind.hasCleanup : StmtKind → Bool
  | .attempt _ _ (some _) => true
  | _ => false

def Stmt.hasCleanup : Stmt → Bool
  | .mk _ kind => kind.hasCleanup

theorem Stmt.eq_of_hasCleanup {stmt : Stmt} (h : stmt.hasCleanup = true)
    : ∃ pos body handler cleanup, stmt = .mk pos (.attempt body handler (some cleanup)) := by
  match stmt, h with
  | .mk pos (.attempt body handler (some cleanup)), _ => exact ⟨pos, body, handler, cleanup, rfl⟩

namespace Machine

/-- Runs a cleanup and says whether the end of the body before it counts still. -/
def cleansUp (m : Machine) (cleanup : List Stmt) (raised : List Value) : Run Bool := do
  let retVal ← Run.retVal
  let flow ← Run.takeFlow
  Run.hold retVal
  Run.holdAll raised
  m.execBlock cleanup
  if (← Run.flow).isNormal then
    Run.setFlow flow
    Run.setRetVal retVal
    return true
  else
    return false

theorem cleanUp_eq (m : Machine) (cleanup : List Stmt) (result : Except Error Unit)
    : m.cleanUp cleanup result =
        m.cleansUp cleanup (raisedValues result) >>= fun again =>
          if again then Run.ofCaptured result else pure () := by
  have hend (flow pending : Flow) (retVal : Value)
      : (if flow.isNormal then do
          Run.setFlow pending
          Run.setRetVal retVal
          Run.ofCaptured result
        else pure () : Run Unit) =
        (if flow.isNormal then do
          Run.setFlow pending
          Run.setRetVal retVal
          pure true
        else pure false) >>= fun again => if again then Run.ofCaptured result else pure () := by
    split
    . simp
    . simp
  unfold cleanUp cleansUp
  simp only [bind_assoc, hend]

end Machine

namespace Parallel

variable {m m' : Machine} {l : Level}

section Class

theorem checkExport (exported : Bool)
    : Parallel m m' l (Run.checkExport exported) (Run.checkExport exported) := by
  unfold Run.checkExport
  apply bind getStack
  intro stack
  apply ite
  . apply raise
  . apply Parallel.pure

theorem belongTo (owner : TypeRef) (value : Value)
    : Parallel m m' l (Run.belongTo owner value) (Run.belongTo owner value) := by
  unfold Run.belongTo
  split
  . apply bind getHeap
    intro heap
    apply newClosure
  . apply Parallel.pure

theorem evalBases (hl : l ≠ .call) (bases : List Expr)
    : Parallel m m' l (m.evalBases bases) (m'.evalBases bases) := by
  induction bases with
  | nil => apply Parallel.pure
  | cons base bases ih =>
    unfold Machine.evalBases
    apply bind (evalType hl _ base)
    intro type
    apply bind ih
    intro types
    apply Parallel.pure

theorem evalMembers [SameFuel m m'] (hl : l ≠ .call) (owner : TypeRef) (defs : List MemberDef)
    : Parallel m m' l (m.evalMembers owner defs) (m'.evalMembers owner defs) := by
  induction defs with
  | nil => apply Parallel.pure
  | cons d defs ih =>
    cases d with
    | mk key value =>
      unfold Machine.evalMembers
      apply bind
      . apply lettingGo
        apply bind (evalKey hl key)
        intro key
        apply bind (eval hl value)
        intro value
        apply bind (belongTo owner value)
        intro member
        apply Parallel.pure
      . intro member
        apply bind (hold _)
        intro
        apply bind ih
        intro members
        apply Parallel.pure

/-- What is evaluated while a class has no members yet. -/
theorem declaredMembers [SameFuel m m'] (hl : l ≠ .call) (name : String) (members : List MemberDef) (type : TypeRef)
    : Parallel m m' l
        (do Run.hold (.type type); Run.defineLocal name (.type type); Run.lettingGo (m.evalMembers type members))
        (do Run.hold (.type type); Run.defineLocal name (.type type); Run.lettingGo (m'.evalMembers type members)) := by
  apply bind (hold _)
  intro
  apply bind (defineLocal hl name _)
  intro
  exact lettingGo (evalMembers hl type members)

theorem execClass [SameFuel m m'] (code : ClassDef) : Parallel m m' .stmt (m.execClass code) (m'.execClass code) := by
  cases code with
  | mk name exported bases members statics =>
    unfold Machine.execClass
    apply bind (checkExport exported)
    intro
    apply bind (evalBases Level.stmt_ne_call bases)
    intro bases
    apply bind
    . apply declare
      exact declaredMembers Level.stmt_ne_call name members
    intro type
    apply bind (evalMembers Level.stmt_ne_call type statics)
    intro statics
    refine bind (modifyHeap _ fun h => .setStatics h type statics) ?_
    intro
    apply ite
    . apply bind (setExport name _)
      intro
      apply setRetVal
    . apply setRetVal

theorem execExtensions [SameFuel m m'] (hl : l ≠ .call) (exported : Bool) (id : Int) (defs : List MemberDef)
    : Parallel m m' l (m.execExtensions exported id defs) (m'.execExtensions exported id defs) := by
  induction defs with
  | nil => apply Parallel.pure
  | cons d defs ih =>
    cases d with
    | mk key value =>
      unfold Machine.execExtensions
      apply bind
      . apply lettingGo
        apply bind (evalKey hl key)
        intro key
        apply bind (eval hl value)
        intro value
        apply ite
        . apply bind (setExport _ value)
          intro
          exact modifyWorld _ fun _ => ⟨rfl, rfl, rfl⟩
        . exact modifyWorld _ fun _ => ⟨rfl, rfl, rfl⟩
      . intro
        exact ih

theorem execExtend [SameFuel m m'] (exported : Bool) (target : Expr) (items : List MemberDef)
    : Parallel m m' .stmt (m.execExtend exported target items) (m'.execExtend exported target items) := by
  unfold Machine.execExtend
  apply bind (checkExport exported)
  intro
  apply bind (evalType Level.stmt_ne_call _ target)
  intro type
  apply bind getHeap
  intro heap
  apply bind (execExtensions Level.stmt_ne_call exported _ items)
  intro
  apply setRetVal

end Class

section Blocks

theorem execAll (stmts : List Stmt) : Parallel m m' .stmt (m.execAll stmts) (m'.execAll stmts) := by
  induction stmts with
  | nil => apply Parallel.pure
  | cons stmt stmts ih =>
    unfold Machine.execAll
    apply bind (exec stmt)
    intro
    apply bind flow
    intro f
    apply ite
    . exact ih
    . apply Parallel.pure

theorem execBlock (stmts : List Stmt) : Parallel m m' .stmt (m.execBlock stmts) (m'.execBlock stmts) := by
  unfold Machine.execBlock
  apply withBlock
  apply execAll

theorem execOptional (body : Option (List Stmt))
    : Parallel m m' .stmt (m.execOptional body) (m'.execOptional body) := by
  cases body with
  | none => apply Parallel.pure
  | some body => exact execBlock body

end Blocks

section Loops

theorem leavesLoop (label : Option String)
    : Parallel m m' .stmt (Run.leavesLoop label) (Run.leavesLoop label) := by
  unfold Run.leavesLoop
  apply bind flow
  intro f
  split
  . apply Parallel.pure
  . apply Parallel.pure
  . apply ite
    . apply bind (setFlow _)
      intro
      apply Parallel.pure
    . apply Parallel.pure

theorem checkHolds (hl : l ≠ .call) (check : Option Expr)
    : Parallel m m' l (m.checkHolds check) (m'.checkHolds check) := by
  cases check with
  | none => apply Parallel.pure
  | some check =>
    apply bind (eval hl check)
    intro value
    apply isTruthy

theorem runLoop (label : Option String) (check next : Option Expr) (body : List Stmt) (fuel : Nat)
    : Parallel m m' .stmt (m.runLoop label check next body fuel)
        (m'.runLoop label check next body fuel) := by
  induction fuel with
  | zero => exact exhausted
  | succ fuel ih =>
    unfold Machine.runLoop
    apply bind (checkHolds Level.stmt_ne_call check)
    intro holds
    apply ite
    . apply bind (execBlock body)
      intro
      apply bind (leavesLoop label)
      intro leaves
      apply ite
      . apply bind (evalOptional Level.stmt_ne_call next)
        intro
        exact ih
      . apply Parallel.pure
    . apply Parallel.pure

theorem runWhile (label : Option String) (check : Expr) (body : List Stmt) (fuel : Nat)
    : Parallel m m' .stmt (m.runWhile label check body fuel) (m'.runWhile label check body fuel) := by
  induction fuel with
  | zero => exact exhausted
  | succ fuel ih =>
    unfold Machine.runWhile
    apply bind
    . apply lettingGo
      apply bind (evalHeld Level.stmt_ne_call check)
      intro value
      apply bind (isTruthy value)
      intro holds
      apply ite
      . apply bind (execBlock body)
        intro
        apply bind (leavesLoop label)
        intro leaves
        apply Parallel.pure
      . apply Parallel.pure
    . intro again
      apply ite
      . exact ih
      . apply Parallel.pure

theorem runDoWhile (label : Option String) (check : Expr) (body : List Stmt) (fuel : Nat)
    : Parallel m m' .stmt (m.runDoWhile label check body fuel) (m'.runDoWhile label check body fuel) := by
  induction fuel with
  | zero => exact exhausted
  | succ fuel ih =>
    unfold Machine.runDoWhile
    apply bind (execBlock body)
    intro
    apply bind (leavesLoop label)
    intro leaves
    apply ite
    . apply bind (checkHolds Level.stmt_ne_call (some check))
      intro holds
      apply ite
      . exact ih
      . apply Parallel.pure
    . apply Parallel.pure

variable [SameFuel m m']

theorem startLoop (label : Option String) (start check next : Option Expr) (body : List Stmt)
    : let loop (m : Machine) : Run Unit := do
        let _ ← m.evalOptional start
        m.runLoop label check next body m.fuel
      Parallel m m' .stmt (loop m) (loop m') := by
  dsimp only
  rw [fuel_eq m m']
  apply bind (evalOptional Level.stmt_ne_call start)
  intro
  apply runLoop

theorem execLoop (label : Option String) (start check next : Option Expr) (body : List Stmt)
    : Parallel m m' .stmt (m.execLoop label start check next body)
        (m'.execLoop label start check next body) :=
  withBlock (startLoop label start check next body)

theorem iterateEach (label index : Option String) (value : String) (source : Source) (body : List Stmt)
    : let visit (m : Machine) (_ : Unit) (i item : Value) : Run (Visit Unit) := do
        Machine.bindItem value index i item
        m.execBlock body
        if ← Run.leavesLoop label then return .stop () else return .next ()
      Parallel m m' .stmt (m.iterate source (visit m) ()) (m'.iterate source (visit m') ()) := by
  apply iterate _ Level.stmt_ne_call
  intro acc i item
  apply bind (bindItem Level.stmt_ne_call value index i item)
  intro
  apply bind (execBlock body)
  intro
  apply bind (leavesLoop label)
  intro leaves
  apply ite
  . apply Parallel.pure
  . apply Parallel.pure

theorem execForEach (label index : Option String) (value : String) (source : Source) (body : List Stmt)
    : Parallel m m' .stmt (m.execForEach label index value source body)
        (m'.execForEach label index value source body) :=
  withBlock (iterateEach label index value source body)

end Loops

section Stmt

theorem handleWith (name : String) (e : Error) (body : List Stmt)
    : Parallel m m' .stmt (m.handleWith name e body) (m'.handleWith name e body) := by
  unfold Machine.handleWith
  apply bind (holdAll _)
  intro
  apply bind (exceptionValue e)
  intro exception
  apply withBlock
  apply bind (forceLocal Level.stmt_ne_call name exception)
  intro
  apply execAll

theorem execGuarded {body body' : Run Unit} (hb : Parallel m m' .stmt body body')
    (handler : Option Handler)
    : Parallel m m' .stmt (m.execGuarded body handler) (m'.execGuarded body' handler) := by
  unfold Machine.execGuarded
  cases handler with
  | none =>
    apply capture (fun _ => false) hb
    . intro a
      apply Parallel.pure
    . intro e _
      exact ⟨rfl, rfl⟩
    . nofun
    . intro e _
      rfl
  | some handler =>
    cases handler with
    | mk name stmts =>
      apply capture (fun e => !e.isFatal) hb
      . intro a
        apply Parallel.pure
      . intro e he
        simp_all
      . intro e he
        simp only [Bool.not_eq_true'] at he
        simp only [he, Bool.false_eq_true, if_false]
        apply handleWith
      . intro e he
        simp only [he, Bool.not_true]

theorem cleansUp (cleanup : List Stmt) (raised : List Value)
    : Parallel m m' .stmt (m.cleansUp cleanup raised) (m'.cleansUp cleanup raised) := by
  unfold Machine.cleansUp
  apply bind retVal
  intro value
  apply bind takeFlow
  intro pending
  apply bind (hold value)
  intro
  apply bind (holdAll _)
  intro
  apply bind (execBlock cleanup)
  intro
  apply bind flow
  intro f
  apply ite
  . apply bind (setFlow pending)
    intro
    apply bind (setRetVal value)
    intro
    apply Parallel.pure
  . apply Parallel.pure

/-- A `try` without a cleanup. -/
theorem execAttempt (body : List Stmt) (handler : Option Handler)
    : Parallel m m' .stmt (m.execAttempt body handler none) (m'.execAttempt body handler none) := by
  unfold Machine.execAttempt
  apply capture (fun _ => false) (lettingGo (execGuarded (execBlock body) handler))
  . intro a
    apply Parallel.pure
  . intro e _
    exact ⟨rfl, rfl⟩
  . nofun
  . intro e _
    rfl

theorem execIf [SameFuel m m'] (otherwise : Option (List Stmt)) (arms : List IfArm)
    : Parallel m m' .stmt (m.execIf otherwise arms) (m'.execIf otherwise arms) := by
  induction arms with
  | nil => exact execOptional otherwise
  | cons arm arms ih =>
    cases arm with
    | mk start condition body =>
      have armed : Parallel m m' .stmt
          (do if ← m.isTruthy (← m.evalHeld condition) then m.execBlock body else m.execIf otherwise arms)
          (do if ← m'.isTruthy (← m'.evalHeld condition) then m'.execBlock body
              else m'.execIf otherwise arms) := by
        apply bind (evalHeld Level.stmt_ne_call condition)
        intro value
        apply bind (isTruthy value)
        intro holds
        apply ite
        . apply execBlock
        . exact ih
      cases start with
      | none => exact armed
      | some start =>
        apply withBlock
        apply bind (eval Level.stmt_ne_call start)
        intro
        exact armed

variable [SameFuel m m']

theorem execSwitch (input : Value) (otherwise : Option (List Stmt)) (cases : List SwitchCase)
    : Parallel m m' .stmt (m.execSwitch input otherwise cases) (m'.execSwitch input otherwise cases) := by
  induction cases with
  | nil => exact execOptional otherwise
  | cons c cases ih =>
    cases c with
    | mk pattern body fallsThrough =>
      unfold Machine.execSwitch
      apply bind (valueMatches Level.stmt_ne_call pattern input)
      intro holds
      apply ite
      . apply bind (execBlock body)
        intro
        apply bind flow
        intro f
        apply ite
        . exact ih
        . apply Parallel.pure
      . exact ih

theorem execDefer (code : Call) (untilBlockEnds : Bool)
    : Parallel m m' .stmt (m.execDefer code untilBlockEnds) (m'.execDefer code untilBlockEnds) := by
  unfold Machine.execDefer
  apply bind (evalHeld Level.stmt_ne_call _)
  intro callee
  apply bind (isCallable callee)
  intro callable
  apply ite
  . apply bind (evalArgs Level.stmt_ne_call _)
    intro args
    apply bind (placeArgs callee args [])
    intro args
    apply ite
    . apply addBlockDefer Level.stmt_ne_call
    . apply addDefer
  . apply ite
    . apply Parallel.pure
    . apply notCallable

theorem execAssert (hl : l ≠ .call) (condition : Expr) (message : Option Expr)
    : Parallel m m' l (m.execAssert condition message) (m'.execAssert condition message) := by
  unfold Machine.execAssert
  apply bind (evalHeld hl condition)
  intro value
  apply bind (isTruthy value)
  intro holds
  apply ite
  . apply Parallel.pure
  . split
    . apply bind (eval hl _)
      intro message
      apply bind (stringify message)
      intro text
      apply raise
    . apply raise

theorem execThrow (hl : l ≠ .call) (value : Expr) : Parallel m m' l (m.execThrow value) (m'.execThrow value) := by
  unfold Machine.execThrow
  apply bind (evalHeld hl value)
  intro value
  apply bind (stringify value)
  intro message
  exact raiseError _ rfl

theorem execKind (kind : StmtKind) (h : kind.hasCleanup = false)
    : Parallel m m' .stmt (m.execKind kind) (m'.execKind kind) := by
  cases kind with
  | expr value =>
    apply bind (eval Level.stmt_ne_call value)
    intro value
    apply setRetVal
  | block body => exact execBlock body
  | cond arms otherwise => exact execIf otherwise arms
  | loop label start check next body => exact execLoop label start check next body
  | forEach label index value source body => exact execForEach label index value source body
  | whileDo label check body =>
    unfold Machine.execKind
    rw [fuel_eq m m']
    apply runWhile
  | doWhile label check body =>
    unfold Machine.execKind
    rw [fuel_eq m m']
    apply runDoWhile
  | breakLoop label => exact setFlow _
  | continueLoop label => exact setFlow _
  | ret value =>
    apply bind (evalOptional Level.stmt_ne_call value)
    intro value
    apply bind (setRetVal value)
    intro
    apply setFlow
  | switch value cases otherwise =>
    apply bind (evalHeld Level.stmt_ne_call value)
    intro value
    apply execSwitch
  | «export» name value =>
    apply bind (checkExport true)
    intro
    apply bind (eval Level.stmt_ne_call value)
    intro value
    apply bind (setExport name value)
    intro
    apply setRetVal
  | cls code => exact execClass code
  | extend exported target items => exact execExtend exported target items
  | defer code => exact execDefer code false
  | blockDefer code => exact execDefer code true
  | attempt body handler cleanup =>
    cases cleanup with
    | none => exact execAttempt body handler
    | some cleanup => injection h
  | fallback stmt body => exact execGuarded (exec stmt) _
  | assert condition message => exact execAssert Level.stmt_ne_call condition message
  | throw value => exact execThrow Level.stmt_ne_call value

theorem execStmt (stmt : Stmt) (h : stmt.hasCleanup = false)
    : Parallel m m' .stmt (m.execStmt stmt) (m'.execStmt stmt) := by
  cases stmt with
  | mk pos kind =>
    apply bind (setPosition pos)
    intro
    apply locating
    exact execKind kind h

end Stmt

end Parallel

end ScriptEngine
