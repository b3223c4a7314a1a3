import ScriptEngine.Proofs.LoopSignals

/-!
This module contains how statements end, by how the computations end that they stand for.
-/

namespace ScriptEngine

variable {x : Run Unit} {s u : State}

/-- How a statement that starts in a state ends, by how the computation ends that it stands for. -/
def State.ending (s : State) : EStateM.Result Halt State Unit → EStateM.Result Halt State Unit
  | .ok a t => .ok a { t with held := s.held }
  | .error (.raised e) t => .error (.raised (t.located e)) { t with held := s.held }
  | .error halt t => .error halt { t with held := s.held }

theorem lettingGo_locating (x : Run Unit) (s : State)
    : Run.lettingGo (Run.locating x) s = s.ending (x s) := by
  unfold Run.lettingGo Run.locating
  rw [Run.bind_apply]
  unfold Run.capture
  cases x s with
  | ok a t => rfl
  | error halt t => cases halt <;> rfl

/-- A statement ends with the error of its computation at the current position. -/
theorem capture_statement {r : Except Error Unit} (h : x s = Run.ofCaptured r u)
    : Run.capture (Run.lettingGo (Run.locating x)) s =
        .ok (r.mapError u.located) { u with held := s.held } := by
  unfold Run.capture
  rw [lettingGo_locating, h]
  cases r <;> rfl

theorem captured_statement {r : Except Error Unit} {t : State}
    (h : Run.capture (Run.lettingGo (Run.locating x)) s = .ok r t)
    : ∃ r' u, Run.capture x s = .ok r' u ∧ r = r'.mapError u.located ∧ t = { u with held := s.held } := by
  unfold Run.capture at h ⊢
  rw [lettingGo_locating] at h
  cases hx : x s with
  | ok a u =>
    rw [hx] at h
    injection h with hr ht
    exact ⟨.ok a, u, rfl, hr.symm, ht.symm⟩
  | error halt u =>
    rw [hx] at h
    cases halt with
    | raised e =>
      injection h with hr ht
      exact ⟨.error e, u, rfl, hr.symm, ht.symm⟩
    | exhausted => injection h
    | died => injection h

/-- A statement that does not end is one whose computation does not end. -/
theorem halted_statement {halt : Halt} {t : State} (hhalt : ∀ e, halt ≠ .raised e)
    (h : Run.lettingGo (Run.locating x) s = .error halt t)
    : ∃ u, x s = .error halt u ∧ t = { u with held := s.held } := by
  rw [lettingGo_locating] at h
  cases hx : x s with
  | ok a u =>
    rw [hx] at h
    injection h
  | error halt' u =>
    rw [hx] at h
    cases halt' with
    | raised e =>
      injection h with h
      exact absurd h.symm (hhalt _)
    | exhausted =>
      injection h with h ht
      exact ⟨u, by rw [h], ht.symm⟩
    | died =>
      injection h with h ht
      exact ⟨u, by rw [h], ht.symm⟩

/-- A statement runs what it stands for at its own position. -/
theorem exec_kind (host : Host) (n : Nat) (pos : Position) (kind : StmtKind) (s : State)
    : (host.machine (n + 1)).exec (.mk pos kind) s =
        Run.lettingGo (Run.locating ((host.machine n).execKind kind)) (s.atPosition pos) := by
  have hlevel : host.machine (n + 1) = host.above n (host.machine n) := rfl
  rw [hlevel, above_exec]
  rfl

end ScriptEngine
