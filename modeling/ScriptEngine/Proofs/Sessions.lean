import ScriptEngine.Proofs.Fatal
import ScriptEngine.Proofs.Orderly

/-!
This module contains the running of statements one after another, and sessions, which are evaluated block by block. A
block ends as far as its statements ran, and clears the signal that they left. Everything else is carried over to the
next block, so that it does not matter where a session is split, as long as no statement leaves a signal.
-/

namespace ScriptEngine

/-- How statements that are run one after another end: where the first of them fails or leaves a signal, if one does. -/
inductive Machine.Runs (m : Machine) : List Stmt → State → EStateM.Result Halt State Unit → Prop where
  | done (s : State) : m.Runs [] s (.ok () s)
  | next {stmt : Stmt} {stmts : List Stmt} {s t : State} {r : EStateM.Result Halt State Unit}
      (hstmt : m.exec stmt s = .ok () t) (hflow : t.context.flow = .normal) (hrest : m.Runs stmts t r)
    : m.Runs (stmt :: stmts) s r
  | leave {stmt : Stmt} {s t : State} (hstmt : m.exec stmt s = .ok () t) (hflow : t.context.flow ≠ .normal)
      (stmts : List Stmt)
    : m.Runs (stmt :: stmts) s (.ok () t)
  | fail {stmt : Stmt} {s t : State} {halt : Halt} (hstmt : m.exec stmt s = .error halt t) (stmts : List Stmt)
    : m.Runs (stmt :: stmts) s (.error halt t)

section Sessions

variable {m : Machine} {xs ys : List Stmt} {s t : State} {r : EStateM.Result Halt State Unit}

theorem Machine.execAll_cons (m : Machine) (stmt : Stmt) (stmts : List Stmt)
    : m.execAll (stmt :: stmts) = (do
        m.exec stmt
        if (← Run.flow).isNormal then m.execAll stmts) := rfl

theorem Machine.Runs.execAll_eq (h : m.Runs xs s r) : m.execAll xs s = r := by
  have hread (u : State) : Run.flow u = .ok u.context.flow u := rfl
  induction h with
  | done => rfl
  | next hstmt hflow _ ih =>
    rw [execAll_cons, Run.bind_ok hstmt, Run.bind_ok (hread _), hflow]
    exact ih
  | leave hstmt hflow =>
    rw [execAll_cons, Run.bind_ok hstmt, Run.bind_ok (hread _), if_neg fun h => hflow (Run.isNormal_eq _ h)]
    rfl
  | fail hstmt => rw [execAll_cons, Run.bind_error hstmt]

theorem Machine.Runs.unique {r' : EStateM.Result Halt State Unit} (h : m.Runs xs s r) (h' : m.Runs xs s r') : r = r' :=
  h.execAll_eq.symm.trans h'.execAll_eq

theorem Machine.exists_runs (m : Machine) (stmts : List Stmt) (s : State) : ∃ r, m.Runs stmts s r := by
  induction stmts generalizing s with
  | nil => exact ⟨_, .done s⟩
  | cons stmt stmts ih =>
    cases hstmt : m.exec stmt s with
    | error halt t => exact ⟨_, .fail hstmt stmts⟩
    | ok _ t =>
      by_cases hflow : t.context.flow = .normal
      . rcases ih t with ⟨r, hrest⟩
        exact ⟨r, .next hstmt hflow hrest⟩
      . exact ⟨_, .leave hstmt hflow stmts⟩

theorem Machine.runs_iff : m.Runs xs s r ↔ m.execAll xs s = r := by
  constructor
  . exact Runs.execAll_eq
  . intro h
    rcases m.exists_runs xs s with ⟨r', hruns⟩
    rw [← h, hruns.execAll_eq]
    exact hruns

/-- Statements that follow others are run after them, if no signal is left. -/
theorem Machine.Runs.append (h : m.Runs xs s (.ok () t)) (ht : t.context.flow = .normal) (hys : m.Runs ys t r)
    : m.Runs (xs ++ ys) s r := by
  generalize hfirst : EStateM.Result.ok () t = first at h
  induction h with
  | done =>
    injection hfirst with _ hfirst
    rw [← hfirst]
    exact hys
  | next hstmt hflow _ ih => exact .next hstmt hflow (ih hfirst)
  | leave _ hflow =>
    injection hfirst with _ hfirst
    rw [← hfirst] at hflow
    exact absurd ht hflow
  | fail => cases hfirst

/-- The end of statements after which no others are run. -/
def Stops : EStateM.Result Halt State Unit → Prop
  | .ok _ t => t.context.flow ≠ .normal
  | .error _ _ => True

theorem Machine.Runs.append_of_stops (h : m.Runs xs s r) (hs : s.context.flow = .normal) (hstops : Stops r)
    : m.Runs (xs ++ ys) s r := by
  induction h with
  | done => exact absurd hs hstops
  | next hstmt hflow _ ih => exact .next hstmt hflow (ih hflow hstops)
  | leave hstmt hflow stmts => exact .leave hstmt hflow (stmts ++ ys)
  | fail hstmt stmts => exact .fail hstmt (stmts ++ ys)

theorem evalBlock_congr (h : m.Runs xs s r) (h' : m.Runs ys t r) : m.evalBlock xs s = m.evalBlock ys t := by
  unfold Machine.evalBlock
  rw [Run.bind_apply, Run.bind_apply, h.execAll_eq, h'.execAll_eq]

/-- The end of a block changes nothing if no signal is left. -/
theorem evalBlock_ok (h : m.Runs xs s (.ok () t)) (ht : t.context.flow = .normal)
    : m.evalBlock xs s = .ok t.context.retVal t := by
  have hsame : t.withFlow .normal = t := by
    rw [← ht]
    rfl
  have hfinish : Run.finishFlow t = .ok () t := by
    rw [Run.finishFlow_apply, ht, hsame]
  unfold Machine.evalBlock
  rw [Run.bind_ok h.execAll_eq, Run.bind_ok hfinish]
  rfl

theorem evalBlock_error {halt : Halt} (h : m.Runs xs s (.error halt t)) : m.evalBlock xs s = .error halt t := by
  unfold Machine.evalBlock
  rw [Run.bind_error h.execAll_eq]

/--
A block can be split anywhere. If its first statements leave no signal, they can be a block of their own: it ends in
the state that they lead to, and the block of the other statements goes on there. If a statement among the first ones
fails or leaves a signal, it is the end, whatever statements follow.
-/
theorem blocks_split_anywhere (m : Machine) (xs ys : List Stmt) (s : State) (hs : s.context.flow = .normal)
    : (∃ r, m.Runs xs s r ∧ m.execAll xs s = r) ∧
      (∀ t, m.Runs xs s (.ok () t) → t.context.flow = .normal →
        m.evalBlock xs s = .ok t.context.retVal t ∧
          m.evalBlock (xs ++ ys) s = (do
            let _ ← m.evalBlock xs
            m.evalBlock ys : Run Value) s) ∧
      (∀ halt t, m.Runs xs s (.error halt t) →
        m.evalBlock xs s = .error halt t ∧ m.evalBlock (xs ++ ys) s = .error halt t) ∧
      ∀ t, m.Runs xs s (.ok () t) → t.context.flow ≠ .normal → m.evalBlock (xs ++ ys) s = m.evalBlock xs s := by
  refine ⟨?_, ?_, ?_, ?_⟩
  . rcases m.exists_runs xs s with ⟨r, hruns⟩
    exact ⟨r, hruns, hruns.execAll_eq⟩
  . intro t hxs ht
    rcases m.exists_runs ys t with ⟨r, hys⟩
    have hblock := evalBlock_ok hxs ht
    rw [Run.bind_ok hblock]
    exact ⟨hblock, evalBlock_congr (hxs.append ht hys) hys⟩
  . intro halt t hxs
    exact ⟨evalBlock_error hxs, evalBlock_error (hxs.append_of_stops hs trivial)⟩
  . intro t hxs ht
    exact evalBlock_congr (hxs.append_of_stops hs ht) hxs

/-- How many calls are put off in the innermost frame and the signal that is left, if no statement fails. -/
def Run.leaves? (x : Run Unit) (s : State) : Option (Nat × Flow) :=
  match x s with
  | .ok _ t => some (t.context.stack.top.defers.length, t.context.flow)
  | .error _ _ => none

theorem Run.ok_of_leaves {x : Run Unit} {defers : Nat} {flow : Flow} (h : x.leaves? s = some (defers, flow))
    : ∃ t, x s = .ok () t ∧ t.context.stack.top.defers.length = defers ∧ t.context.flow = flow := by
  unfold leaves? at h
  split at h
  . next t hx =>
    injection h with h
    injection h with hdefers hflow
    exact ⟨t, hx, hdefers, hflow⟩
  . injection h

/-- A variable and a call that is put off go over to the next block. After a `return` or an error it is not run. -/
theorem counting_session_splits
    : let m := Host.none.machine 12
      let s := Engine.bareState {} .silent 0
      let next := Stmt.expr (.binary .add (.ident "n") (.int 1))
      let counting := [Stmt.var "n" (.int 1), .ofKind (.defer (.mk (.func (.mk none [] false [])) [] false)), next]
      let leaving := [Stmt.ofKind (.ret (some (.int 5)))]
      let failing := [Stmt.var "n" (.int 1), .ofKind (.throw (.str "no"))]
      let closing := [Stmt.assign (.ident "n") (.int 2), next]
      (∃ t, m.execAll counting s = .ok () t ∧ t.context.stack.top.defers.length = 1 ∧ t.context.flow = .normal ∧
        m.evalBlock (counting ++ closing) s = m.evalBlock closing t) ∧
      (m.evalBlock (counting ++ closing)).int? s = some 3 ∧
      m.evalBlock (leaving ++ closing) s = m.evalBlock leaving s ∧ (m.evalBlock leaving).int? s = some 5 ∧
      ∃ e u, m.evalBlock failing s = .error (.raised e) u ∧
        m.evalBlock (failing ++ closing) s = .error (.raised e) u := by
  intro m s next counting leaving failing closing
  have hs : s.context.flow = .normal := rfl
  have hcounting : (m.execAll counting).leaves? s = some (1, .normal) := by decide +kernel
  have hleaving : (m.execAll leaving).leaves? s = some (0, .ret) := by decide +kernel
  have hfailing : (m.execAll failing).cause? s = some .thrown := by decide +kernel
  have hresult : (m.evalBlock (counting ++ closing)).int? s = some 3 := by decide +kernel
  have hreturned : (m.evalBlock leaving).int? s = some 5 := by decide +kernel
  rcases Run.ok_of_leaves hcounting with ⟨t, hcounting, hdefers, ht⟩
  rcases Run.ok_of_leaves hleaving with ⟨u, hleaving, _, hu⟩
  rcases Run.raised_of_cause hfailing with ⟨e, v, hfailing, _⟩
  have hsignal : u.context.flow ≠ .normal := by
    rw [hu]
    decide
  have hcarried := (blocks_split_anywhere m counting closing s hs).2.1 t (Machine.runs_iff.mpr hcounting) ht
  have hfails := (blocks_split_anywhere m failing closing s hs).2.2.1 _ v (Machine.runs_iff.mpr hfailing)
  have hreturns := (blocks_split_anywhere m leaving closing s hs).2.2.2 u (Machine.runs_iff.mpr hleaving) hsignal
  refine ⟨⟨t, hcounting, hdefers, ht, ?_⟩, hresult, hreturns, hreturned, e, v, hfails⟩
  rw [hcarried.2, Run.bind_ok hcarried.1]

/-- Evaluates blocks one after another and gives the value of the last statement. -/
def Machine.evalBlocks (m : Machine) : List (List Stmt) → Run Value
  | [] => Run.retVal
  | block :: blocks => do
    let _ ← m.evalBlock block
    m.evalBlocks blocks

/--
A session of any number of blocks gives what all their statements give as one block, whether they run to their end or
one of them fails, as long as none of them leaves a signal.
-/
theorem sessions_run_as_one_block (m : Machine) (blocks : List (List Stmt)) (hs : s.context.flow = .normal)
    (hruns : m.Runs blocks.flatten s r) (hflow : ∀ t, r = .ok () t → t.context.flow = .normal)
    : m.evalBlocks blocks s = m.evalBlock blocks.flatten s := by
  induction blocks generalizing s with
  | nil => exact (evalBlock_ok (.done s) hs).symm
  | cons block blocks ih =>
    rcases m.exists_runs block s with ⟨first, hblock⟩
    rw [List.flatten_cons] at hruns ⊢
    unfold Machine.evalBlocks
    cases first with
    | error halt t =>
      rw [Run.bind_error (evalBlock_error hblock), evalBlock_error (hblock.append_of_stops hs trivial)]
    | ok _ t =>
      by_cases ht : t.context.flow = .normal
      . rcases m.exists_runs blocks.flatten t with ⟨r', hrest⟩
        have hall := hblock.append ht hrest
        rw [Run.bind_ok (evalBlock_ok hblock ht), evalBlock_congr hall hrest]
        rw [← hruns.unique hall] at hrest
        exact ih ht hrest
      . exact absurd (hflow t (hruns.unique (hblock.append_of_stops hs ht))) ht

end Sessions

end ScriptEngine
