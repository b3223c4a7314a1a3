import ScriptEngine.Proofs.Fatal
import ScriptEngine.Proofs.Nesting
import ScriptEngine.Proofs.Statements

/-!
This module contains where a module may export something. An export looks at nothing but the frames: outside
of all functions one block is allowed around it, and how many blocks there are depends on the statements that
it is nested in.
-/

namespace ScriptEngine

namespace Machine

/--
What a statement that exports something does where it may. An exported class is the class, whose type is put
among the exports.
-/
def exportOf (m : Machine) : StmtKind → Option (Run Unit)
  | .export name value => some do
    let value ← m.eval value
    Run.setExport name value
    Run.setRetVal value
  | .cls (.mk name true bases members statics) => some do
    m.execClass (.mk name false bases members statics)
    Run.setExport name (← Run.retVal)
  | .extend true target items => some do
    let type ← m.evalType "a type to extend" target
    m.execExtensions true ((← Run.getHeap).types.id type) items
    Run.setRetVal (.type type)
  | _ => none

end Machine

section Check

variable {m : Machine} {s : State}

theorem checkExport_apply (s : State)
    : Run.checkExport true s =
        if s.context.stack.isModuleTop then .ok () s else .error (.raised (.ofCause .misplacedExport)) s := by
  unfold Run.checkExport
  rw [Run.bind_ok (rfl : Run.getStack s = .ok s.context.stack s)]
  cases s.context.stack.isModuleTop <;> rfl

/-- A class that is exported is checked for that first, and put among the exports in the end. -/
theorem execClass_exported (m : Machine) (name : String) (bases : List Expr) (members statics : List MemberDef)
    : m.execClass (.mk name true bases members statics) =
        (do
          Run.checkExport true
          m.execClass (.mk name false bases members statics)
          Run.setExport name (← Run.retVal)) := by
  have hunchecked : Run.checkExport false = pure () := rfl
  unfold Machine.execClass
  simp only [hunchecked, pure_bind, bind_assoc]
  rfl

/-- A statement that exports something is refused, or it does the rest. -/
theorem execKind_export {kind : StmtKind} {rest : Run Unit} (hrest : m.exportOf kind = some rest) (s : State)
    : m.execKind kind s =
        if s.context.stack.isModuleTop then rest s else .error (.raised (.ofCause .misplacedExport)) s := by
  have hkind : m.execKind kind = Run.checkExport true >>= fun _ => rest := by
    unfold Machine.exportOf at hrest
    split at hrest
    . injection hrest with hrest
      rw [← hrest]
      rfl
    . injection hrest with hrest
      rw [← hrest]
      exact execClass_exported ..
    . injection hrest with hrest
      rw [← hrest]
      rfl
    . injection hrest
  have hcheck := checkExport_apply s
  rw [hkind]
  split at hcheck
  . next htop =>
    rw [if_pos htop]
    exact Run.bind_ok hcheck
  . next htop =>
    rw [if_neg htop]
    exact Run.bind_error hcheck

theorem isModuleTop_eq (s : State)
    : s.context.stack.isModuleTop = (decide (s.kinds.length ≤ 2) && !s.kinds.any FrameKind.isFunction) := by
  unfold Stack.isModuleTop State.kinds
  rw [List.length_map, List.any_map]
  rfl

/-- Among blocks in a module, no more than one block is allowed around an export. -/
theorem isModuleTop_of_blocks {d : Nat} (h : s.kinds = List.replicate d .block ++ [.root])
    : s.context.stack.isModuleTop = decide (d ≤ 1) := by
  have hfunction : s.kinds.any FrameKind.isFunction = false := by
    rw [h, List.any_append, List.any_replicate]
    split <;> rfl
  rw [isModuleTop_eq, hfunction, h, List.length_append, List.length_replicate, Bool.not_false, Bool.and_true]
  simp

theorem not_isModuleTop_of_function {f : FrameKind} (hf : f ∈ s.kinds) (hfunction : f.isFunction = true)
    : s.context.stack.isModuleTop = false := by
  have hany : s.kinds.any FrameKind.isFunction = true := List.any_eq_true.mpr ⟨f, hf, hfunction⟩
  rw [isModuleTop_eq, hany, Bool.not_true, Bool.and_false]

/-- The statement itself is refused at its position, or it is the rest that runs there. -/
theorem exec_export (host : Host) {n : Nat} {kind : StmtKind} {rest : Run Unit}
    (hrest : (host.machine n).exportOf kind = some rest) (pos : Position) (s : State)
    : (host.machine (n + 1)).exec (.mk pos kind) s =
        if s.context.stack.isModuleTop then Run.lettingGo (Run.locating rest) (s.atPosition pos)
        else .error (.raised ((s.atPosition pos).located (.ofCause .misplacedExport))) (s.atPosition pos) := by
  have htop : (s.atPosition pos).context.stack.isModuleTop = s.context.stack.isModuleTop := rfl
  rw [exec_kind, lettingGo_locating, lettingGo_locating, execKind_export hrest, htop]
  split <;> rfl

end Check

/--
Where something may be exported. The statements of a module run in the frames that the module starts in. An
export that is reached from one of them without a call in between is nested in it, and it runs without being
refused if no more than one block is around it, and is refused at its position otherwise. Below an active
function it is always refused.
-/
theorem exports_by_blocks (host : Host) (hframes : host.KeepsFrames)
    : (∀ n stmts s first t, (host.machine n).Enters (·.runModule stmts) s first t →
        first ∈ stmts ∧ t.kinds = s.kinds) ∧
      (∀ n first t k pos kind u rest, host.Reaches n first t (k + 1) (.mk pos kind) u →
        t.kinds = [.root] → (host.machine k).exportOf kind = some rest →
        ∃ d, first.Nested (.mk pos kind) d ∧ u.kinds = List.replicate d .block ++ [.root] ∧
          (d ≤ 1 →
            (host.machine (k + 1)).exec (.mk pos kind) u =
              Run.lettingGo (Run.locating rest) (u.atPosition pos)) ∧
          (2 ≤ d →
            (host.machine (k + 1)).exec (.mk pos kind) u =
              .error (.raised ((u.atPosition pos).located (.ofCause .misplacedExport))) (u.atPosition pos))) ∧
      (∀ k pos kind u rest, (host.machine k).exportOf kind = some rest →
        (∃ f ∈ u.kinds, f.isFunction = true) →
        (host.machine (k + 1)).exec (.mk pos kind) u =
          .error (.raised ((u.atPosition pos).located (.ofCause .misplacedExport))) (u.atPosition pos)) := by
  refine ⟨?_, ?_, ?_⟩
  . intro n stmts s first t henters
    exact Machine.runModule_enters (machine_respects framesKept_discipline hframes n) henters
  . intro n first t k pos kind u rest hreaches ht hrest
    rcases hreaches.nested hframes with ⟨d, hnested, hu⟩
    rw [ht] at hu
    have htop := isModuleTop_of_blocks hu
    refine ⟨d, hnested, hu, ?_, ?_⟩
    . intro hd
      rw [exec_export host hrest, htop, decide_eq_true hd, if_pos rfl]
    . intro hd
      have hd : ¬d ≤ 1 := by omega
      rw [exec_export host hrest, htop, decide_eq_false hd, if_neg nofun]
  . intro k pos kind u rest hrest hfunction
    rcases hfunction with ⟨f, hf, hfunction⟩
    rw [exec_export host hrest, not_isModuleTop_of_function hf hfunction, if_neg nofun]

/-- An export in a block, and one in a block inside a block, each at the top of a module. -/
theorem scripted_exports_by_blocks
    : let host := Host.scripted fun _ => some []
      let s := Engine.bareState {} .silent 0
      let stmt := Stmt.mk ⟨"main", 3⟩ (.export "x" (.int 1))
      let inner := Stmt.mk ⟨"main", 2⟩ (.block [stmt])
      let outer := Stmt.mk ⟨"main", 1⟩ (.block [inner])
      let t := (s.atPosition ⟨"main", 2⟩).inBlock
      let u := ((s.atPosition ⟨"main", 1⟩).inBlock.atPosition ⟨"main", 2⟩).inBlock
      let rest : Run Unit := do
        let value ← (host.machine 5).eval (.int 1)
        Run.setExport "x" value
        Run.setRetVal value
      host.KeepsFrames ∧ s.kinds = [.root] ∧ (host.machine 7).Enters (·.runModule [inner]) s inner s ∧
        host.Reaches 7 inner s 6 stmt t ∧
        (host.machine 6).exec stmt t = Run.lettingGo (Run.locating rest) (t.atPosition ⟨"main", 3⟩) ∧
        host.Reaches 8 outer s 6 stmt u ∧
        (host.machine 6).exec stmt u =
          .error (.raised ((u.atPosition ⟨"main", 3⟩).located (.ofCause .misplacedExport)))
            (u.atPosition ⟨"main", 3⟩) := by
  intro host s stmt inner outer t u rest
  have hframes : host.KeepsFrames := scripted_respects framesKept_discipline
  have hinner : host.Reaches 7 inner s 6 stmt t := .inside (Machine.block_enters ..) (.here ..)
  have houter : host.Reaches 8 outer s 6 stmt u :=
    .inside (Machine.block_enters ..) (.inside (Machine.block_enters ..) (.here ..))
  have hexports := (exports_by_blocks host hframes).2.1
  refine ⟨hframes, rfl, Machine.module_enters .., hinner, ?_, houter, ?_⟩
  . rcases hexports 7 inner s 5 ⟨"main", 3⟩ _ t rest hinner rfl rfl with ⟨d, _, hkinds, hruns, _⟩
    apply hruns
    have hlength := congrArg List.length hkinds
    rw [List.length_append, List.length_replicate] at hlength
    have hlength : 2 = d + 1 := hlength
    omega
  . rcases hexports 8 outer s 5 ⟨"main", 3⟩ _ u rest houter rfl rfl with ⟨d, _, hkinds, _, hrefused⟩
    apply hrefused
    have hlength := congrArg List.length hkinds
    rw [List.length_append, List.length_replicate] at hlength
    have hlength : 3 = d + 1 := hlength
    omega

-- In the body of a `while` an export has one block around it, in the body of a `for` it has two.
example (stmt : Stmt) (check : Expr) (source : Source)
    : (StmtKind.whileDo none check [stmt]).parts = [(stmt, 1)] ∧
        (StmtKind.forEach none none "x" source [stmt]).parts = [(stmt, 2)] :=
  ⟨rfl, rfl⟩

end ScriptEngine
