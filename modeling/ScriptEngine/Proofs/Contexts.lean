import Mathlib.Algebra.Order.BigOperators.Group.List
import Mathlib.Algebra.Order.Ring.Nat
import ScriptEngine.Proofs.Cleanup

/-!
This module contains the limit on active calls where several contexts are in use. A module is loaded in
a context of its own while the one that imports it waits. Each context counts its calls anew, and the
functions that are active in it are among them, so that the limit holds in each context. Nothing limits
how many contexts wait: modules that import each other are loaded without end.
-/

namespace ScriptEngine

/-- How many functions are active in a context. -/
def Context.functions (c : Context) : Nat := c.stack.outline.countP fun frame => frame.1.isFunction

/-- The functions that are active in a context are counted, and there are not too many of them. -/
def Context.Within (limit : Nat) (c : Context) : Prop := c.functions ≤ c.depth ∧ c.depth ≤ limit

namespace State

/-- The running context and those that wait for it, the last one first. -/
def contexts (s : State) : List Context := s.context :: s.waiting

/-- How many functions are active in all contexts. -/
def functions (s : State) : Nat := (s.contexts.map Context.functions).sum

/-- The limit on active calls holds in each context. -/
def EachWithin (s : State) : Prop := ∀ c ∈ s.contexts, c.Within s.world.settings.maxDepth

instance : DecidablePred EachWithin := fun s =>
  inferInstanceAs (Decidable (∀ c ∈ s.contexts, c.functions ≤ c.depth ∧ c.depth ≤ s.world.settings.maxDepth))

end State

section Limits

variable {s t : State}

theorem functions_enter_function (c : Context) (name : String) (scope : ScopeRef)
    : (c.enter (.function name) scope).functions = c.functions + 1 :=
  List.countP_cons_of_pos rfl

/-- No function is active in a new context, and no call is counted. -/
theorem State.Forks.functions {context : Context} {heap : Heap} (h : s.Forks context heap)
    : context.functions = 0 := by
  rcases h with ⟨_, _, _, hnew, _⟩
  rw [hnew]
  rfl

theorem contexts_start (s : State) (context : Context) (heap : Heap)
    : (s.start context heap).contexts = context :: s.contexts := rfl

theorem eachWithin_iff
    : s.EachWithin ↔ s.context.Within s.world.settings.maxDepth ∧
        ∀ c ∈ s.waiting, c.Within s.world.settings.maxDepth :=
  List.forall_mem_cons

theorem State.SameCalls.eachWithin (h : s.SameCalls t) (hs : s.EachWithin) : t.EachWithin := by
  have hfunctions : t.context.functions = s.context.functions := by
    unfold Context.functions
    rw [h.outline]
  rw [eachWithin_iff] at hs ⊢
  unfold Context.Within at hs ⊢
  rw [h.settings, h.waiting, h.depth, hfunctions]
  exact hs

/-- The running context changes and stays within the limit. -/
theorem State.EachWithin.withContext (hs : s.EachWithin) {c : Context} (hc : c.Within s.world.settings.maxDepth)
    : (s.withContext c).EachWithin := by
  rw [eachWithin_iff] at hs ⊢
  exact ⟨hc, hs.2⟩

/-- The regime that knows the functions of all contexts. -/
def Regime.contexts : Regime where
  Allows k s := s.EachWithin ∧ s.context.depth + k ≤ s.world.settings.maxDepth
  Keeps s t := s.SameCalls t
  ofSame h := h
  settings h := h.settings
  trans h h' := h.trans h'
  allows hs h := by
    refine ⟨h.eachWithin hs.1, ?_⟩
    rw [h.settings, h.depth]
    exact hs.2
  mono hs := ⟨hs.1, Nat.le_trans (Nat.le_add_right _ _) hs.2⟩
  room hs hdepth := ⟨hs.1, hdepth⟩
  block scope hs := by
    refine ⟨hs.1.withContext ?_, hs.2⟩
    exact (eachWithin_iff.mp hs.1).1
  deeper hs := by
    have hwithin := (eachWithin_iff.mp hs.1).1
    exact ⟨hs.1.withContext ⟨Nat.le_succ_of_le hwithin.1, hs.2⟩, hs.2⟩
  function name scope hs := by
    have hwithin := (eachWithin_iff.mp hs.1).1
    refine ⟨hs.1.withContext ⟨?_, hs.2⟩, hs.2⟩
    rw [functions_enter_function]
    exact Nat.succ_le_succ hwithin.1
  left h := h.left
  returned h := h.returned
  letGo h := h.letGo
  fork hs hforks := by
    constructor
    . unfold State.EachWithin
      rw [contexts_start, List.forall_mem_cons]
      refine ⟨⟨?_, ?_⟩, hs.1⟩
      . rw [hforks.functions]
        exact Nat.zero_le _
      . rw [hforks.depth]
        exact Nat.zero_le _
    . unfold State.start
      rw [hforks.depth]
      exact Nat.zero_le _
  back h := .back h

theorem contexts_allows (hs : s.EachWithin) : Regime.contexts.Allows 0 s := ⟨hs, (eachWithin_iff.mp hs).1.2⟩

/-- On a thread there are at most as many active functions as the limit allows for each of its contexts. -/
theorem State.EachWithin.functions_le (hs : s.EachWithin)
    : s.functions ≤ s.contexts.length * s.world.settings.maxDepth := by
  have hle : ∀ k ∈ s.contexts.map Context.functions, k ≤ s.world.settings.maxDepth := by
    intro k hk
    rcases List.mem_map.mp hk with ⟨c, hc, hck⟩
    rw [← hck]
    exact Nat.le_trans (hs c hc).1 (hs c hc).2
  have hsum := List.sum_le_card_nsmul _ _ hle
  rw [List.length_map] at hsum
  exact hsum

end Limits

/-- The functions and the importer of a host leave the contexts alone. -/
def Host.KeepsContexts (host : Host) : Prop := host.Heeds .contexts True False

/-- A computation does not end within the steps that it was given. -/
def Run.GivesUp {α : Type} (x : Run α) (s : State) : Prop := ∃ t, x s = .error .exhausted t

/-- Each of these modules starts with an import of one of them. -/
def ImportOnward (modules : String → Option (List Stmt)) (names : List String) : Prop :=
  ∀ name ∈ names, ∃ next ∈ names, ∃ pos rest, modules name = some (.mk pos (.expr (.load next)) :: rest)

section Cycles

namespace Run

variable {α β : Type} {x : Run α} {s : State}

theorem GivesUp.bind {f : α → Run β} (h : x.GivesUp s) : (x >>= f).GivesUp s := by
  rcases h with ⟨t, h⟩
  exact ⟨t, bind_error h⟩

theorem GivesUp.after {f : α → Run β} {a : α} {t : State} (hx : x s = .ok a t) (h : (f a).GivesUp t)
    : (x >>= f).GivesUp s := by
  rcases h with ⟨u, h⟩
  exact ⟨u, (bind_ok hx).trans h⟩

theorem GivesUp.capture (h : x.GivesUp s) : (capture x).GivesUp s := by
  rcases h with ⟨t, h⟩
  exact ⟨t, capture_halted h fun _ => nofun⟩

theorem GivesUp.lettingGo (h : x.GivesUp s) : (lettingGo x).GivesUp s := by
  rcases h with ⟨t, h⟩
  refine ⟨{ t with held := s.held }, ?_⟩
  simp only [Run.lettingGo, h]

theorem GivesUp.forked (h : ∀ t : State, t.world = s.world → x.GivesUp t) : (forked x).GivesUp s := by
  rcases Machine.forked_apply s with ⟨context, heap, _, happly⟩
  rcases h (s.start context heap) rfl with ⟨t, ht⟩
  unfold State.start at ht
  refine ⟨t.backIn s, ?_⟩
  rw [happly, ht]
  rfl

end Run

variable {modules : String → Option (List Stmt)} {names : List String} {name : String} {n : Nat} {s : State}

/-- A statement that imports a module does so two levels further down. -/
theorem exec_load_givesUp {host : Host} {pos : Position}
    (h : ∀ t : State, t.world = s.world → ((host.machine n).importModule name false).GivesUp t)
    : ((host.machine (n + 2)).exec (.mk pos (.expr (.load name)))).GivesUp s := by
  rw [Host.machine, above_exec]
  apply Run.GivesUp.lettingGo
  apply Run.GivesUp.after (rfl : Run.setPosition pos s = .ok () _)
  unfold Run.locating
  apply Run.GivesUp.bind
  apply Run.GivesUp.capture
  apply Run.GivesUp.bind
  rw [Host.machine, above_eval]
  apply Run.GivesUp.lettingGo
  exact h _ rfl

/-- A module is run in a context of its own to be loaded. -/
theorem importModule_givesUp {stmt : Stmt} {rest : List Stmt} (hkept : s.world.modules.get? name = none)
    (hmodule : modules name = some (stmt :: rest))
    (h : ∀ t : State, t.world = s.world → (((Host.scripted modules).machine n).exec stmt).GivesUp t)
    : (((Host.scripted modules).machine (n + 1)).importModule name false).GivesUp s := by
  unfold Run.GivesUp
  rw [Machine.importModule_none hkept]
  apply Run.GivesUp.bind
  apply Run.GivesUp.bind
  simp only [hmodule]
  apply Run.GivesUp.bind
  apply Run.GivesUp.forked
  intro t ht
  unfold Machine.runModule
  apply Run.GivesUp.bind
  apply Run.GivesUp.capture
  apply Run.GivesUp.bind
  unfold Machine.execAll
  apply Run.GivesUp.bind
  exact h t ht

/-- However deep evaluations may be nested, the import of modules that import each other goes deeper. -/
theorem importModule_cycle_givesUp (hnames : ImportOnward modules names) (hname : name ∈ names)
    (hkept : ∀ name ∈ names, s.world.modules.get? name = none)
    : (((Host.scripted modules).machine n).importModule name false).GivesUp s := by
  induction n using Nat.strong_induction_on generalizing name s with
  | h n ih =>
    rcases hnames name hname with ⟨next, hnext, pos, rest, hmodule⟩
    match n with
    | 0 =>
      unfold Run.GivesUp
      rw [Machine.importModule_none (hkept name hname)]
      exact ⟨s, rfl⟩
    | n + 1 =>
      apply importModule_givesUp (hkept name hname) hmodule
      intro t ht
      match n with
      | 0 => exact ⟨t, rfl⟩
      | 1 => exact ⟨_, rfl⟩
      | n + 2 =>
        apply exec_load_givesUp
        intro u hu
        -- What is imported next is not kept, either, since nothing has been loaded so far.
        apply ih n (by omega) hnext
        rw [hu, ht]
        exact hkept

end Cycles

/-- A computation and all that it evaluates stay within the limit. The other one looks whether they do. -/
def Run.StaysWithin {α : Type} (x x' : Run α) (s : State) : Prop := x' s = x s ∧ ∀ t, x.Ends s t → t.EachWithin

theorem Run.Heeds.staysWithin {α : Type} {x x' : Run α} (h : Heeds .contexts True False 0 x x') {s : State}
    (hs : s.EachWithin)
    : StaysWithin x x' s := by
  refine ⟨h.eq (contexts_allows hs), ?_⟩
  intro t ht
  exact State.SameCalls.eachWithin (h.keeps (contexts_allows hs) ht) hs

/--
The limit on active calls where several contexts are in use. In a fresh context it holds, and whatever is
evaluated from there on, it holds all along in every context, whether it runs or waits, so that a thread
has at most as many active functions as its contexts may have together. A call that is one too many for its
context is refused. But a context of its own starts without calls, however many there are in those that
wait for it. Nothing limits their number, and modules that import each other in a cycle are loaded
without end.
-/
theorem limit_holds_in_each_context (host : Host) (hhost : host.KeepsContexts) (n : Nat)
    : (∀ s : State, s.waiting = [] → (∃ scope position exports, s.context = .new scope position exports) →
        s.EachWithin) ∧
      (∀ s : State, s.EachWithin → ∀ alarm,
        let m := host.machine n
        let looking := host.checking (Machine.asserting State.EachWithin alarm) n
        (∀ stmt, Run.StaysWithin (m.exec stmt) (looking.exec stmt) s) ∧
        (∀ e, Run.StaysWithin (m.eval e) (looking.eval e) s) ∧
        (∀ callee this args, Run.StaysWithin (m.invoke callee this args) (looking.invoke callee this args) s) ∧
        (∀ type args, Run.StaysWithin (m.construct type args) (looking.construct type args) s) ∧
        (∀ name force, Run.StaysWithin (m.importModule name force) (looking.importModule name force) s) ∧
        (∀ stmts, Run.StaysWithin (m.evalBlock stmts) (looking.evalBlock stmts) s) ∧
        (∀ stmts, Run.StaysWithin (m.runModule stmts) (looking.runModule stmts) s)) ∧
      (∀ s : State, s.EachWithin → s.functions ≤ s.contexts.length * s.world.settings.maxDepth) ∧
      (∀ callee this args (s : State), callee.isFunction = true → s.AtLimit →
        (host.machine (n + 1)).invoke callee this args s = .error (.raised s.refusal) s) ∧
      (∀ s : State, ∃ context heap, context.depth = 0 ∧ context.functions = 0 ∧
        (s.start context heap).contexts = context :: s.contexts ∧
        ∀ (α : Type) (x : Run α), Run.forked x s =
          match x (s.start context heap) with
          | .ok a t => .ok a (t.backIn s)
          | .error halt t => .error halt (t.backIn s)) ∧
      (∀ modules names, ImportOnward modules names → ∀ name ∈ names, ∀ s : State,
        (∀ name ∈ names, s.world.modules.get? name = none) →
        (((Host.scripted modules).machine n).importModule name false).GivesUp s) := by
  refine ⟨?_, ?_, ?_, ?_, ?_, ?_⟩
  . intro s hwaiting ⟨scope, position, exports, hnew⟩
    rw [eachWithin_iff, hwaiting, hnew]
    exact ⟨⟨Nat.le_refl 0, Nat.zero_le _⟩, List.forall_mem_nil _⟩
  . intro s hs alarm m looking
    have hm : m.Heeds .contexts True False looking := asserting_heeds hhost (fun _ h => h.1) alarm n
    refine ⟨?_, ?_, ?_, ?_, ?_, ?_, ?_⟩
    . intro stmt
      exact (hm.exec stmt).staysWithin hs
    . intro e
      exact (hm.eval e).staysWithin hs
    . intro callee this args
      exact (hm.invoke callee this args).staysWithin hs
    . intro type args
      exact (Parallel.heeds hm (l := .call) (.construct type args)).staysWithin hs
    . intro name force
      exact (importModule_heeds hm name force).staysWithin hs
    . intro stmts
      exact (evalBlock_heeds hm stmts).staysWithin hs
    . intro stmts
      exact (runModule_heeds hm stmts).staysWithin hs
  . intro s hs
    exact hs.functions_le
  . intro callee this args s hfunction hlimit
    exact invoke_refused hfunction hlimit this args
  . intro s
    rcases Machine.forked_apply s with ⟨context, heap, hforks, happly⟩
    refine ⟨context, heap, hforks.depth, hforks.functions, contexts_start s context heap, ?_⟩
    intro α x
    exact happly x
  . intro modules names hnames name hname s hs
    exact importModule_cycle_givesUp hnames hname hs

/--
A function that may be the only one imports a module that calls a function. The limit holds in each of the
two contexts, although both functions are active at once. Two modules that import each other are loaded
without end.
-/
theorem scripted_limit_in_each_context
    : let function (value : Expr) := FuncDef.mk none [] false [Stmt.ofKind (.ret (some value))]
      let call (value : Expr) := Expr.call (.mk (.func (function value)) [] false)
      let host := Host.scripted fun _ => some [Stmt.ofKind (.export "x" (call (.int 7)))]
      let m := host.machine 16
      let s := Engine.bareState { maxDepth := 1 } .silent 0
      let outer := call (.member (.load "a") "x")
      let pair (name : String) := some [Stmt.expr (.load (if name = "a" then "b" else "a"))]
      host.KeepsContexts ∧ s.EachWithin ∧ Run.int? (m.eval outer) s = some 7 ∧
        (∀ alarm, (host.checking (Machine.asserting State.EachWithin alarm) 16).eval outer s = m.eval outer s) ∧
        Run.int? ((host.checking (Machine.asserting (fun t => t.functions ≤ 1) .died) 16).eval outer) s = none ∧
        (∀ this args, m.invoke (.func ⟨0⟩) this args (s.withDepth 1) =
          .error (.raised (s.withDepth 1).refusal) (s.withDepth 1)) ∧
        ∀ n, (((Host.scripted pair).machine n).importModule "a" false).GivesUp s := by
  intro function call host m s outer pair
  have hhost : host.KeepsContexts := scripted_heeds .contexts
  have h (n : Nat) := limit_holds_in_each_context host hhost n
  have hs : s.EachWithin := (h 16).1 s rfl ⟨_, _, _, rfl⟩
  have hvalue : Run.int? (m.eval outer) s = some 7 := by decide +kernel
  have hboth : Run.int? ((host.checking (Machine.asserting (fun t => t.functions ≤ 1) .died) 16).eval outer) s =
      none := by decide +kernel
  have hpair : ImportOnward pair ["a", "b"] := by
    intro name _
    refine ⟨if name = "a" then "b" else "a", ?_, .unknown, [], rfl⟩
    split <;> decide
  refine ⟨hhost, hs, hvalue, ?_, hboth, ?_, ?_⟩
  . intro alarm
    exact (((h 16).2.1 s hs alarm).2.1 outer).1
  . intro this args
    exact (h 15).2.2.2.1 (.func ⟨0⟩) this args (s.withDepth 1) rfl (Nat.le_refl 1)
  . intro n
    exact (h n).2.2.2.2.2 pair ["a", "b"] hpair "a" (by decide) s fun _ _ => rfl

end ScriptEngine
