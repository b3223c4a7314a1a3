import ScriptEngine.Proofs.Regime

/-!
This module contains machines that follow others: their evaluations do what those of the other
machine do, or give up. Such a machine checks something on the way, and where it never gives up, that
has held all along. The check may be one that holds only within the limit on active calls.
-/

namespace ScriptEngine

/-- The way a computation ended leaves the settings and, if anything runs after it, the number of calls. -/
def Steady {α : Type} (s : State) : EStateM.Result Halt State α → Prop
  | .ok _ t | .error (.raised _) t =>
    t.world.settings = s.world.settings ∧ t.context.depth = s.context.depth
  | .error _ t => t.world.settings = s.world.settings

/--
Whenever `k` more calls may be active, `x'` does what `x` does, which is steady. If `L` is false this
is asked for in all states and of computations that are not steady; if `G` is true then `x'` may give
up at any point.
-/
def Run.Follows {α : Type} (L G : Prop) (k : Nat) (x x' : Run α) : Prop :=
  ∀ s, (L → s.context.depth + k ≤ s.world.settings.maxDepth) →
    (x' s = x s ∧ (L → Steady s (x s))) ∨ (G ∧ ∃ t, x' s = .error .exhausted t)

/-- Every callback of `m'` follows that of `m`. -/
structure Machine.Follows (L G : Prop) (m m' : Machine) : Prop where
  fuel : m.fuel = m'.fuel
  eval (e : Expr) : Run.Follows L G 0 (m.eval e) (m'.eval e)
  exec (stmt : Stmt) : Run.Follows L G 0 (m.exec stmt) (m'.exec stmt)
  invoke (callee this : Value) (args : List Value)
    : Run.Follows L G 0 (m.invoke callee this args) (m'.invoke callee this args)
  release (raised : List Value) (calls : List Deferred)
    : Run.Follows L G 0 (m.release raised calls) (m'.release raised calls)
  spawn (callee : Value) (args : List Value)
    : Run.Follows L G 0 (m.spawn callee args) (m'.spawn callee args)
  native (call : HostCall) (this : Value) (args : List Value)
    : Run.Follows L G 0 (m.native call this args) (m'.native call this args)
  loadModule (name : String) (modified : Int64)
    : Run.Follows L G 0 (m.loadModule name modified) (m'.loadModule name modified)

/-- The functions and the importer of a host follow if what they call back into does. -/
structure Host.Follows (L G : Prop) (host : Host) : Prop where
  native {m m' : Machine} (hm : m.Follows L G m') (call : HostCall) (this : Value) (args : List Value)
    : Run.Follows L G 0 (host.native m call this args) (host.native m' call this args)
  importer {m m' : Machine} (hm : m.Follows L G m')
    {load : Machine → String → Int64 → Run (Option Module)} (h : host.importer = some load)
    (name : String) (modified : Int64)
    : Run.Follows L G 0 (load m name modified) (load m' name modified)

/-- The regime that knows the number of active calls and the limit, and nothing of the frames. -/
def Regime.calls : Regime where
  Allows k s := s.context.depth + k ≤ s.world.settings.maxDepth
  Keeps s t := t.world.settings = s.world.settings ∧ t.context.depth = s.context.depth
  ofSame h := ⟨h.settings, h.depth⟩
  settings h := h.1
  trans h h' := ⟨h'.1.trans h.1, h'.2.trans h.2⟩
  allows hs h := by
    rw [h.1, h.2]
    exact hs
  mono hs := Nat.le_trans (Nat.le_add_right _ _) hs
  room _ hdepth := hdepth
  block _ hs := hs
  deeper hs := hs
  function _ _ hs := hs
  left h := h
  returned h := ⟨h.1, State.depth_shallower h.2⟩
  letGo h := h
  fork _ hforks := by
    unfold State.start
    rw [hforks.depth]
    exact Nat.zero_le _
  back h := ⟨h, rfl⟩

section Calls

variable {L G : Prop} {m m' : Machine} {host : Host}

theorem Machine.follows_iff : m.Follows L G m' ↔ m.Heeds .calls L G m' := by
  constructor
  . intro h
    exact ⟨h.fuel, h.eval, h.exec, h.invoke, h.release, h.spawn, h.native, h.loadModule⟩
  . intro h
    exact ⟨h.fuel, h.eval, h.exec, h.invoke, h.release, h.spawn, h.native, h.loadModule⟩

theorem Host.follows_iff : host.Follows L G ↔ host.Heeds .calls L G := by
  constructor
  . intro h
    exact ⟨fun hm => h.native (Machine.follows_iff.mpr hm), fun hm => h.importer (Machine.follows_iff.mpr hm)⟩
  . intro h
    exact ⟨fun hm => h.native (Machine.follows_iff.mp hm), fun hm => h.importer (Machine.follows_iff.mp hm)⟩

end Calls

namespace Run

variable {L G : Prop} {k : Nat} {α β : Type}

theorem Follows.bind {x x' : Run α} {f f' : α → Run β} (hx : Follows L G k x x')
    (hf : ∀ a, Follows L G k (f a) (f' a))
    : Follows L G k (x >>= f) (x' >>= f') :=
  Heeds.bind (R := .calls) hx hf

theorem Follows.capture {x x' : Run α} (hx : Follows L G k x x') : Follows L G k (capture x) (capture x') :=
  Heeds.capture (R := .calls) hx

theorem raiseError_follows (e : Error) : Follows L G k (raiseError e : Run α) (raiseError e) :=
  raiseError_heeds (R := .calls) e

theorem found_follows (name : String) (found : Option Module)
    : let given : Run Module :=
        match found with
        | none => Run.raise (.missingModule name)
        | some loaded => return loaded
      Follows L G k given given :=
  found_heeds (R := .calls) name found

end Run

section Rules

variable {L G : Prop} {m m' : Machine} {l : Level} {α : Type}
variable (hm : m.Follows L G m')
include hm

theorem Parallel.follows {x x' : Run α} (h : Parallel m m' l x x') : Run.Follows L G 0 x x' :=
  h.heeds (Machine.follows_iff.mp hm)

theorem importModule_follows (name : String) (forceReload : Bool)
    : Run.Follows L G 0 (m.importModule name forceReload) (m'.importModule name forceReload) :=
  importModule_heeds (Machine.follows_iff.mp hm) name forceReload

theorem makeCall_follows (call : Deferred) (calls : List Deferred)
    : Run.Follows L G 0 (m.makeCall call calls) (m'.makeCall call calls) :=
  makeCall_heeds (Machine.follows_iff.mp hm) call calls

theorem evalBlock_follows (stmts : List Stmt)
    : Run.Follows L G 0 (m.evalBlock stmts) (m'.evalBlock stmts) :=
  evalBlock_heeds (Machine.follows_iff.mp hm) stmts

theorem runModule_follows (stmts : List Stmt)
    : Run.Follows L G 0 (m.runModule stmts) (m'.runModule stmts) :=
  runModule_heeds (Machine.follows_iff.mp hm) stmts

end Rules

section Machine

variable {L G : Prop} {host : Host} {m m' : Machine}

theorem above_follows (hhost : host.Follows L G) (hm : m.Follows L G m') (fuel : Nat)
    : (host.above fuel m).Follows L G (host.above fuel m') :=
  Machine.follows_iff.mpr (above_heeds (Host.follows_iff.mp hhost) (Machine.follows_iff.mp hm) fuel)

theorem spent_follows : Machine.spent.Follows L G Machine.spent := Machine.follows_iff.mpr spent_heeds

/-- Checks that let a machine do what it does let every level of evaluation do so. -/
theorem checking_follows (hhost : host.Follows L G) {check : Machine → Machine}
    (hcheck : ∀ m m' : Machine, m.Follows L G m' → m.Follows L G (check m')) (n : Nat)
    : (host.machine n).Follows L G (host.checking check n) := by
  rw [Machine.follows_iff]
  apply checking_heeds (Host.follows_iff.mp hhost)
  intro m m' hm
  exact Machine.follows_iff.mp (hcheck m m' (Machine.follows_iff.mpr hm))

/-- Every level of evaluation follows itself. -/
theorem machine_follows (hhost : host.Follows L G) (n : Nat)
    : (host.machine n).Follows L G (host.machine n) :=
  Machine.follows_iff.mpr (machine_heeds (Host.follows_iff.mp hhost) n)

end Machine

end ScriptEngine
