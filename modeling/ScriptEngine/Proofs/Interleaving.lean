import ScriptEngine.Proofs.Conduct
import ScriptEngine.Proofs.Regime

/-!
This module contains evaluations that run next to other threads. Before and after everything that is evaluated,
called or loaded, the other threads may do something to the state, and a spawned call may be one of them: its handle
is there at once, and it goes on while the evaluation does. At any such point the evaluation may also be stopped, so
that what holds wherever it ends holds of it as far as it got. All this is proved here once for all conducts that the
other threads keep to.
-/

namespace ScriptEngine

/-- What other threads do while something is evaluated. What happens next may depend on all that is in the heap. -/
structure Others where
  step : State → State
  /-- Whether the evaluation gets no further. -/
  stops : State → Bool
  /-- Starts a call on a thread of its own, and tells how it ends. -/
  spawn : Machine → Value → List Value → Run (Except Error Value)

namespace Others

/-- No other thread runs, since every call that is spawned runs to its end at once. -/
def none : Others where
  step := id
  stops _ := false
  spawn := Machine.spawn

/-- A computation, with what other threads do before it and after it. -/
def around (others : Others) {α : Type} (x : Run α) : Run α := fun s =>
  if others.stops s then .error .died s else Run.finishing others.step x (others.step s)

end Others

/-- The machine that lets other threads run whenever something is evaluated, called or loaded. -/
def Machine.among (others : Others) (m : Machine) : Machine where
  fuel := m.fuel
  eval e := others.around (m.eval e)
  exec stmt := others.around (m.exec stmt)
  invoke callee this args := others.around (m.invoke callee this args)
  release := m.release
  spawn callee args := others.around (others.spawn m callee args)
  native call this args := others.around (m.native call this args)
  importer := m.importer.map fun load => fun name modified => others.around (load name modified)

/-- The machine that evaluates up to `n` levels deep next to other threads. -/
def Host.among (host : Host) (others : Others) (n : Nat) : Machine := host.checking (Machine.among others) n

theorem Others.around_none {α : Type} (x : Run α) : Others.none.around x = x := by
  funext s
  unfold around none Run.finishing
  rw [if_neg Bool.false_ne_true]
  simp only [id_eq]
  cases x s with
  | ok a t => rfl
  | error halt t => cases halt <;> rfl

theorem Machine.among_none (m : Machine) : m.among .none = m := by
  unfold among
  simp only [Others.around_none]
  rcases m with ⟨fuel, eval, exec, invoke, release, spawn, native, importer⟩
  cases importer <;> rfl

theorem Host.among_none (host : Host) (n : Nat) : host.among .none n = host.machine n := by
  induction n with
  | zero => rfl
  | succ n ih =>
    show (host.above n (host.among .none n)).among .none = host.above n (host.machine n)
    rw [Machine.among_none, ih]

section Conducts

variable {R : Level → State → Outcome → State → Prop} {others : Others} {host : Host} {m : Machine}

/-- Other threads keep to a conduct, and they make spawned calls keep to it if the thread does that spawns them. -/
structure Others.Conducts (R : Level → State → Outcome → State → Prop) (others : Others) : Prop where
  step (s : State) : R .call s .ok (others.step s)
  stop (s : State) : R .call s .died s
  spawn {m : Machine} (hm : m.Conducts R) (callee : Value) (args : List Value)
    : (others.spawn m callee args).Obeys (R .call)

theorem Others.Conducts.around (hothers : others.Conducts R) (hR : Conduct R) {α : Type} {l : Level} {x : Run α}
    (hx : x.Obeys (R l))
    : (others.around x).Obeys (R l) := by
  intro s o t h
  have hstep (s : State) : R l s .ok (others.step s) := hR.ofCall (hothers.step s)
  by_cases hstops : others.stops s = true
  . rcases Run.gives_died h (if_pos hstops) with ⟨ho, ht⟩
    rw [ho, ht]
    exact hR.ofCall (hothers.stop s)
  have h := h.congr (if_neg hstops)
  rcases Run.gives_finishing h with ⟨u, hu, ⟨hdied, ht⟩ | ⟨_, ht⟩⟩
  . rw [ht]
    apply hR.trans (hstep s)
    have hu := hx _ _ _ hu
    cases o with
    | ok => exact hR.trans hu (hstep u)
    | raised e => exact hR.later hu (hstep u)
    | died => exact absurd rfl hdied
  . rw [ht]
    exact hR.trans (hstep s) (hx _ _ _ hu)

theorem among_conducts (hR : Conduct R) (hothers : others.Conducts R) (hm : m.Conducts R)
    (himport : ∀ name forceReload, ((m.among others).importModule name forceReload).Obeys (R .call))
    : (m.among others).Conducts R where
  eval e := hothers.around hR (hm.eval e)
  exec stmt := hothers.around hR (hm.exec stmt)
  invoke callee this args := hothers.around hR (hm.invoke callee this args)
  release := hm.release
  spawn callee args := hothers.around hR (hothers.spawn hm callee args)
  native call this args := hothers.around hR (hm.native call this args)
  importModule := himport

theorem among_importModule_obeys (hR : Conduct R) (hhost : host.Conducts R) (hothers : others.Conducts R)
    (hmodules : ∀ s modules, R .call s .ok (s.withModules modules)) (fuel : Nat) (hm : m.Conducts R)
    (name : String) (forceReload : Bool)
    : (((host.above fuel m).among others).importModule name forceReload).Obeys (R .call) := by
  refine importModule_obeys_of_load hR hmodules ?_ name forceReload
  apply loadModule_obeys_of_importer hR
  intro load hload name modified
  rcases Option.map_eq_some_iff.mp hload with ⟨given, hgiven, rfl⟩
  exact hothers.around hR (importer_obeys hhost fuel hm given hgiven name modified)

/-- Every evaluation next to other threads keeps to a conduct that is not about the modules, if they do. -/
theorem machine_among_conducts (hR : Conduct R) (hhost : host.Conducts R) (hothers : others.Conducts R)
    (hmodules : ∀ s modules, R .call s .ok (s.withModules modules)) (n : Nat)
    : (host.among others n).Conducts R := by
  induction n with
  | zero => exact spent_conducts hR
  | succ n ih =>
    apply among_conducts hR hothers
    . exact above_conducts hR hhost n ih (importModule_obeys hR hhost hmodules n ih)
    . exact among_importModule_obeys hR hhost hothers hmodules n ih

end Conducts

end ScriptEngine
