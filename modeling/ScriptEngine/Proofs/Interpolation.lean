import Mathlib.Data.List.Induction
import ScriptEngine.Proofs.Frame
import ScriptEngine.Proofs.Slices
import ScriptEngine.Tree.Build

/-!
This module contains the evaluation of texts that are made of parts. The tree of such a text nests to the left, so that
the first part stands deepest in it, and still the parts are evaluated in order. What puts them together is the sum of
two texts, for which no hook is looked up.
-/

namespace ScriptEngine

namespace Run

variable {α β : Type} {x : Run α} {f : α → Run β}

/-- A computation after which no more is held on to than before. -/
def LetsGo (x : Run α) : Prop := ∀ s, (Engine.stateAfter x s).held = s.held

theorem LetsGo.lettingGo_eq (hx : x.LetsGo) : lettingGo x = x := by
  funext s
  have hs := hx s
  unfold Engine.stateAfter at hs
  unfold lettingGo
  cases h : x s with
  | ok a t =>
    rw [h] at hs
    dsimp only at hs ⊢
    rw [← hs]
  | error halt t =>
    rw [h] at hs
    dsimp only at hs ⊢
    rw [← hs]

theorem pure_letsGo (a : α) : LetsGo (pure a) := fun _ => rfl

theorem lettingGo_letsGo (x : Run α) : LetsGo (lettingGo x) := by
  intro s
  unfold Engine.stateAfter lettingGo
  cases x s <;> rfl

theorem LetsGo.bind (hx : x.LetsGo) (hf : ∀ a, (f a).LetsGo) : (x >>= f).LetsGo := by
  intro s
  have hs := hx s
  unfold Engine.stateAfter at hs ⊢
  rw [bind_apply]
  cases h : x s with
  | ok a t =>
    rw [h] at hs
    exact (hf a t).trans hs
  | error halt t =>
    rw [h] at hs
    exact hs

theorem mapM_letsGo {as : List α} {g : α → Run β} (hg : ∀ a, (g a).LetsGo) : (as.mapM g).LetsGo := by
  induction as with
  | nil => exact pure_letsGo []
  | cons a as ih =>
    rw [List.mapM_cons]
    apply (hg a).bind
    intro b
    apply ih.bind
    intro bs
    exact pure_letsGo (b :: bs)

theorem lettingGo_map (x : Run α) (g : α → β) : lettingGo (g <$> x) = g <$> lettingGo x := by
  funext s
  rw [map_eq_pure_bind, map_eq_pure_bind, bind_apply]
  unfold lettingGo
  rw [bind_apply]
  cases x s <;> rfl

end Run

theorem Expr.interpolate_concat {parts : List Expr} (hparts : parts ≠ []) (last : Expr)
    : interpolate (parts ++ [last]) = .binary .add (interpolate parts) (.toStr last) := by
  have hgo (acc : Expr) (parts : List Expr)
      : interpolate.go acc (parts ++ [last]) = .binary .add (interpolate.go acc parts) (.toStr last) := by
    induction parts generalizing acc with
    | nil => rfl
    | cons part parts ih => exact ih _
  cases parts with
  | nil => exact absurd rfl hparts
  | cons part parts => exact hgo (.toStr part) parts

/-- The text of a part. What its evaluation held on to is let go. -/
def Machine.partText (m : Machine) (part : Expr) : Run String :=
  Run.lettingGo do
    let value ← m.evalHeld part
    m.stringify value

/--
The texts of parts, one after another. The first two parts are evaluated with the same number of steps, and every part
after them with one more than the part before it.
-/
def Host.partTexts (host : Host) (n : Nat) (parts : List Expr) : Run (List String) :=
  parts.zipIdx.mapM fun part => (host.machine (n + max 1 part.2)).partText part.1

section Interpolation

variable {host : Host} {m : Machine} {n : Nat} {parts : List Expr}

theorem partTexts_letsGo : (host.partTexts n parts).LetsGo := Run.mapM_letsGo fun _ => Run.lettingGo_letsGo _

theorem partTexts_concat (last : Expr)
    : host.partTexts n (parts ++ [last]) = (do
        let texts ← host.partTexts n parts
        let text ← (host.machine (n + max 1 parts.length)).partText last
        return texts ++ [text]) := by
  simp [Host.partTexts, List.zipIdx_append, List.mapM_append]

theorem eval_toStr (host : Host) (n : Nat) (part : Expr)
    : (host.machine (n + 1)).eval (.toStr part) = Value.str <$> (host.machine n).partText part := by
  have hlevel : host.machine (n + 1) = host.above n (host.machine n) := rfl
  have heval : (host.machine n).evalExpr (.toStr part) = Value.str <$> (do
      let value ← (host.machine n).evalHeld part
      (host.machine n).stringify value) := by
    simp [Machine.evalExpr]
  rw [hlevel, above_eval, heval, Run.lettingGo_map]
  rfl

/-- A text is not held on to. -/
theorem evalHeld_text {e : Expr} {texts : Run String} (h : m.eval e = Value.str <$> texts)
    : m.evalHeld e = Value.str <$> texts := by
  have hhold (text : String) : Run.hold (.str text) = pure () := rfl
  simp [Machine.evalHeld, h, hhold]

/-- The sum of two texts, one evaluated after the other. -/
theorem evalBinary_texts {left right : Expr} {x y : Run String} (hfuel : m.fuel ≠ 0)
    (hleft : m.eval left = Value.str <$> x) (hright : m.eval right = Value.str <$> y)
    : m.evalBinary .add left right = Value.str <$> (do
        let a ← x
        let b ← y
        return a ++ b) := by
  have hsum (a b : String) : m.binaryValues .add (.str a) (.str b) = pure (.str (a ++ b)) :=
    funext (binaryValues_add_str hfuel a b)
  simp [Machine.evalBinary, evalHeld_text hleft, evalHeld_text hright, hsum]

/-- The induction is on the last part, which is the right operand of the outermost sum. -/
theorem eval_interpolate (host : Host) (n : Nat) (parts : List Expr)
    : (host.machine (n + 1 + parts.length)).eval (.interpolate parts) =
        Value.str <$> String.join <$> host.partTexts n parts := by
  induction parts using List.reverseRecOn with
  | nil =>
    have hlevel : host.machine (n + 1) = host.above n (host.machine n) := rfl
    have hempty : (host.machine n).evalExpr (.str "") =
        Value.str <$> String.join <$> (pure [] : Run (List String)) := rfl
    show (host.machine (n + 1)).eval (.str "") = _
    rw [hlevel, above_eval, hempty]
    rfl
  | append_singleton parts last ih =>
    by_cases hparts : parts = []
    . have hlast := eval_toStr host (n + 1) last
      rw [hparts]
      show (host.machine (n + 1 + 1)).eval (.toStr last) = _
      simpa [Host.partTexts] using hlast
    . have hlength := List.length_pos_iff.mpr hparts
      have hlevel : host.machine (n + 1 + (parts.length + 1)) =
          host.above (n + 1 + parts.length) (host.machine (n + 1 + parts.length)) := rfl
      have hmax : n + 1 + parts.length = n + max 1 parts.length + 1 := by omega
      have hlast := eval_toStr host (n + max 1 parts.length) last
      rw [← hmax] at hlast
      have hfuel : (host.machine (n + 1 + parts.length)).fuel ≠ 0 := by
        rw [hmax]
        show n + max 1 parts.length ≠ 0
        omega
      have hjoin : (do
            let text ← String.join <$> host.partTexts n parts
            let last ← (host.machine (n + max 1 parts.length)).partText last
            return text ++ last) = String.join <$> host.partTexts n (parts ++ [last]) := by
        simp [partTexts_concat, String.join_append]
      have heval : (host.machine (n + 1 + parts.length)).evalExpr (.interpolate (parts ++ [last])) =
          Value.str <$> String.join <$> host.partTexts n (parts ++ [last]) := by
        rw [Expr.interpolate_concat hparts, ← hjoin]
        exact evalBinary_texts hfuel ih hlast
      rw [List.length_append, List.length_singleton, hlevel, above_eval, heval, Run.lettingGo_map, Run.lettingGo_map,
        partTexts_letsGo.lettingGo_eq]

/-- Nothing is evaluated after the first part that has no text. -/
theorem partTexts_error {front rest : List Expr} {part : Expr} {texts : List String} {halt : Halt} {s t u : State}
    (hfront : host.partTexts n front s = .ok texts t)
    (hpart : (host.machine (n + max 1 front.length)).partText part t = .error halt u)
    : host.partTexts n (front ++ part :: rest) s = .error halt u := by
  unfold Host.partTexts at hfront ⊢
  rw [List.zipIdx_append, List.zipIdx_cons, List.mapM_append, Run.bind_ok hfront, List.mapM_cons, Nat.zero_add]
  exact Run.bind_error (Run.bind_error hpart)

/--
A text that is made of parts is evaluated by finding the texts of the parts, each of them once and from first to last,
and putting them together, whatever hooks there are in the state. If a part has no text, the evaluation ends as that
of the part does, and the parts after it are not evaluated. The machine for the whole has as many more steps as there
are levels in the tree above a part.
-/
theorem interpolations_join_texts (host : Host) (n : Nat) (parts : List Expr) (s : State)
    : (host.machine (n + 1 + parts.length)).eval (.interpolate parts) s = (do
        let texts ← parts.zipIdx.mapM fun part => (host.machine (n + max 1 part.2)).partText part.1
        return .str (String.join texts) : Run Value) s ∧
      ∀ (front rest : List Expr) (part : Expr) (texts : List String) (halt : Halt) (t u : State),
        parts = front ++ part :: rest → host.partTexts n front s = .ok texts t →
        (host.machine (n + max 1 front.length)).partText part t = .error halt u →
        (host.machine (n + 1 + parts.length)).eval (.interpolate parts) s = .error halt u := by
  rw [eval_interpolate]
  constructor
  . simp [Host.partTexts]
  . intro front rest part texts halt t u hparts hfront hpart
    rw [hparts, map_eq_pure_bind, map_eq_pure_bind]
    exact Run.bind_error (Run.bind_error (partTexts_error hfront hpart))

/-- A number and a text are put together although `+` is overridden on texts, and a part that fails ends it all. -/
theorem interpolation_passes_hooks
    : let s := Engine.stateAfter
        (do
          Run.setGlobal "Str" (.type BuiltinType.str.ref)
          (Host.none.machine 12).exec (.ofKind (.extend false (.ident "Str")
            [.mk (.str "__add__") (.func (.mk none ["other"] false [.ofKind (.ret (some (.int 0)))]))])))
        (Engine.bareState {} .silent 0)
      let front := [Expr.int 1, .str "a"]
      let failing := Expr.unary .neg (.str "b")
      let parts := front ++ [failing, .str "c"]
      (∃ hook t, Run.findHook (.str "1") "__add__" s = .ok (some hook) t) ∧
        Host.none.partTexts 10 front s = .ok ["1", "a"] s ∧
        (Host.none.machine (10 + 1 + front.length)).eval (.interpolate front) s = .ok (.str "1a") s ∧
        ∃ cause, (Host.none.machine 12).partText failing s = .error (.raised (.ofCause cause)) s ∧
          (Host.none.machine (10 + 1 + parts.length)).eval (.interpolate parts) s =
            .error (.raised (.ofCause cause)) s := by
  intro s front failing parts
  have hhook : ∃ hook t, Run.findHook (.str "1") "__add__" s = .ok (some hook) t := ⟨_, _, rfl⟩
  have hfront : Host.none.partTexts 10 front s = .ok ["1", "a"] s := rfl
  have hfails : ∃ cause, (Host.none.machine 12).partText failing s = .error (.raised (.ofCause cause)) s := ⟨_, rfl⟩
  clear_value s
  rcases hfails with ⟨cause, hfails⟩
  have hjoined := (interpolations_join_texts .none 10 front s).1
  have hfailed := (interpolations_join_texts .none 10 parts s).2 front [.str "c"] failing _ _ _ _ rfl hfront hfails
  refine ⟨hhook, hfront, ?_, cause, hfails, hfailed⟩
  rw [hjoined]
  exact Run.bind_ok hfront

end Interpolation

end ScriptEngine
