import ScriptEngine.Proofs.Following

/-!
This module contains the limit on active calls. A machine that stops as soon as anything is evaluated
above the limit does the same as one that never looks, so the limit is never exceeded.
-/

namespace ScriptEngine

/-- Stops with `alarm` if more calls are active than there may be. -/
def Run.bounded {α : Type} (alarm : Halt) (x : Run α) : Run α := fun s =>
  if s.context.depth ≤ s.world.settings.maxDepth then x s else .error alarm s

/-- The machine that looks at the number of active calls whenever something is evaluated or called. -/
def Machine.bounded (alarm : Halt) (m : Machine) : Machine where
  fuel := m.fuel
  eval e := (m.eval e).bounded alarm
  exec stmt := (m.exec stmt).bounded alarm
  invoke callee this args := (m.invoke callee this args).bounded alarm
  release raised calls := (m.release raised calls).bounded alarm
  spawn callee args := (m.spawn callee args).bounded alarm
  native call this args := (m.native call this args).bounded alarm
  importer := m.importer.map fun load => fun name modified => (load name modified).bounded alarm

/-- The functions and the importer of a host leave the number of calls and the limit alone. -/
def Host.KeepsDepth (host : Host) : Prop := host.Follows True False

theorem bounded_follows {host : Host} (hhost : host.KeepsDepth) (alarm : Halt) (n : Nat)
    : (host.machine n).Follows True False (host.checking (Machine.bounded alarm) n) := by
  let P (s : State) : Prop := s.context.depth ≤ s.world.settings.maxDepth
  have h := asserting_heeds (P := P) (Host.follows_iff.mp hhost) (fun _ hs => hs) alarm n
  exact Machine.follows_iff.mpr h

/-- A computation that follows another one within the limit does the same there. -/
theorem Run.Follows.eq {α : Type} {x x' : Run α} (h : Follows True False 0 x x') {s : State}
    (hs : s.context.depth ≤ s.world.settings.maxDepth)
    : x' s = x s :=
  Heeds.eq (R := .calls) h hs

end ScriptEngine
