import ScriptEngine.Proofs.Discipline
import ScriptEngine.Proofs.Following

/-!
This module contains a host that calls back into the script: its functions call their first argument,
and its importer runs the statements of a module in a context of their own. It keeps to every
discipline, and follows whatever the machine follows under every regime.
-/

namespace ScriptEngine

def Host.scripted (modules : String → Option (List Stmt)) : Host where
  native m _ this args :=
    match args with
    | [] => return this
    | callee :: args => m.invoke callee this args
  importer := some fun m name modified => do
    match modules name with
    | Option.none => return Option.none
    | some stmts =>
      let value ← Run.forked (m.runModule stmts)
      return some ⟨value, modified⟩

variable {α : Type} {modules : String → Option (List Stmt)}

theorem forked_leaves {R : Level → Context → Context → Prop} (hR : Discipline R) {l : Level} (x : Run α)
    : (Run.forked x).Leaves (R l) := by
  apply Run.leaves_of_same hR
  intro s t h
  rcases Machine.forked_apply s with ⟨context, heap, _, happly⟩
  unfold Run.Ends at h
  rw [happly x] at h
  split at h
  . rcases h with ⟨a, h⟩ | ⟨e, h⟩
    . injection h with _ h
      rw [← h]
    . injection h
  . rcases h with ⟨a, h⟩ | ⟨e, h⟩
    . injection h
    . injection h with _ h
      rw [← h]

theorem scripted_respects {R : Level → Context → Context → Prop} (hR : Discipline R)
    : (Host.scripted modules).Respects R := by
  constructor
  case native =>
    intro m hm call this args
    cases args with
    | nil => exact Run.pure_leaves hR this
    | cons callee args => exact hm.invoke callee this args
  case importer =>
    intro m hm load h name modified
    injection h with h
    rw [← h]
    dsimp only
    split
    . exact Run.pure_leaves hR none
    . apply (forked_leaves hR _).bind hR
      intro value
      exact Run.pure_leaves hR _

theorem scripted_heeds (R : Regime) {L G : Prop} : (Host.scripted modules).Heeds R L G := by
  constructor
  case native =>
    intro m m' hm call this args
    cases args with
    | nil => exact Run.pure_heeds this
    | cons callee args => exact hm.invoke callee this args
  case importer =>
    intro m m' hm load h name modified
    injection h with h
    rw [← h]
    dsimp only
    split
    . exact Run.pure_heeds none
    . apply (runModule_heeds hm _).forked.bind
      intro value
      apply Run.pure_heeds

theorem scripted_follows {L G : Prop} : (Host.scripted modules).Follows L G :=
  Host.follows_iff.mpr (scripted_heeds .calls)

end ScriptEngine
