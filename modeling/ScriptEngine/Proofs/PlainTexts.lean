import ScriptEngine.Proofs.Endings

/-!
This module contains the agreement of the two texts of a value. Where no hook gives another text, the
text that scripts see is the one that is found without asking for hooks.
-/

namespace ScriptEngine

section Lists

variable {α β : Type} {as : List α} {bs : List β}

theorem mapM_cons_eq_some {f : α → Option β} {a : α}
    : (a :: as).mapM f = some bs ↔ ∃ b rest, f a = some b ∧ as.mapM f = some rest ∧ b :: rest = bs := by
  simp only [List.mapM_cons, Option.bind_eq_bind, Option.bind_eq_some_iff, Option.pure_def, Option.some.injEq,
    exists_and_left]

theorem mapM_mono {f g : α → Option β} (h : ∀ a ∈ as, ∀ b, f a = some b → g a = some b)
    (hbs : as.mapM f = some bs)
    : as.mapM g = some bs := by
  induction as generalizing bs with
  | nil => exact hbs
  | cons a as ih =>
    rw [List.forall_mem_cons] at h
    rw [mapM_cons_eq_some] at hbs ⊢
    rcases hbs with ⟨b, rest, hb, hrest, hbs⟩
    exact ⟨b, rest, h.1 b hb, ih h.2 hrest, hbs⟩

theorem mapM_apply {f : α → Option β} {g : α → Run β} {s : State}
    (h : ∀ a ∈ as, ∀ b, f a = some b → g a s = .ok b s) (hbs : as.mapM f = some bs)
    : as.mapM g s = .ok bs s := by
  induction as generalizing bs with
  | nil =>
    cases hbs
    rfl
  | cons a as ih =>
    rw [List.forall_mem_cons] at h
    rcases mapM_cons_eq_some.mp hbs with ⟨b, rest, hb, hrest, rfl⟩
    rw [List.mapM_cons, Run.bind_ok (h.1 b hb), Run.bind_ok (ih h.2 hrest)]
    rfl

end Lists

namespace Heap

variable {h : Heap} {value : Value} {depth depth' : Nat} {text : String}

theorem display?_mono (htext : h.display? depth value = some text) (hle : depth ≤ depth')
    : h.display? depth' value = some text := by
  induction depth generalizing value text depth' with
  | zero => cases htext
  | succ depth ih =>
    cases depth' with
    | zero => omega
    | succ depth' =>
      have hle : depth ≤ depth' := by omega
      cases value with
      | array ref =>
        rw [display?, Option.map_eq_some_iff] at htext ⊢
        rcases htext with ⟨texts, htexts, htext⟩
        exact ⟨texts, mapM_mono (fun item _ text hitem => ih hitem hle) htexts, htext⟩
      | object handle =>
        rw [display?, Option.map_eq_some_iff] at htext ⊢
        rcases htext with ⟨texts, htexts, htext⟩
        refine ⟨texts, mapM_mono ?_ htexts, htext⟩
        intro e _ text hmember
        rw [Option.map_eq_some_iff] at hmember ⊢
        rcases hmember with ⟨inner, hinner, hmember⟩
        exact ⟨inner, ih hinner hle, hmember⟩
      | bound tag receiver callee =>
        rw [display?, Option.map_eq_some_iff] at htext ⊢
        rcases htext with ⟨inner, hinner, htext⟩
        exact ⟨inner, ih hinner hle, htext⟩
      | _ => exact htext

end Heap

namespace State

variable {s : State} {value : Value}

theorem ShowsPlainly.intro
    (hook : match value with
      | .str _ | .array _ => True
      | asked => Run.findHook asked "__str__" s = .ok none s)
    (hparts : ∀ part ∈ s.heap.parts value, s.ShowsPlainly part)
    : s.ShowsPlainly value := by
  intro inner hinner
  rcases hinner.cases_tail with heq | ⟨part, hinner, hpart⟩
  . rw [← heq]
    exact hook
  . exact hparts part hpart inner hinner

end State

namespace Machine

variable {m : Machine} {s : State} {value : Value} {depth : Nat} {text : String}

/--
The induction is on the depth of the text without hooks. What holds others goes one level down on both
sides. The text of anything else is looked for with all steps again, which find what fewer steps find.
-/
theorem stringify_go_of_display? (hplain : s.ShowsPlainly value) (hfuel : depth ≤ m.fuel)
    (htext : s.heap.display? depth value = some text)
    : stringify.go m depth value s = .ok text s := by
  induction depth generalizing value text with
  | zero => cases htext
  | succ depth ih =>
    have hfuel' : depth ≤ m.fuel := by omega
    cases value with
    | str text' =>
      cases htext
      rfl
    | array ref =>
      rw [Heap.display?, Option.map_eq_some_iff] at htext
      rcases htext with ⟨texts, htexts, htext⟩
      have hitems : (s.heap.parts (.array ref)).mapM (fun item => stringify.go m depth item) s = .ok texts s :=
        mapM_apply (fun item hitem text htext => ih (hplain.part hitem) hfuel' htext) htexts
      rw [stringify_go_array, Run.bind_ok hitems, ← htext]
      rfl
    | object handle =>
      rw [Heap.display?, Option.map_eq_some_iff] at htext
      rcases htext with ⟨texts, htexts, htext⟩
      have hentries : (s.heap.members handle).entries.mapM (fun e : String × Value => do
          let text ← stringify.go m depth e.2
          return e.1 ++ ": " ++ text : String × Value → Run String) s = .ok texts s := by
        refine mapM_apply ?_ htexts
        intro e he text hmember
        rcases Option.map_eq_some_iff.mp hmember with ⟨inner, hinner, hmember⟩
        have hmember' := ih (hplain.part (List.mem_map_of_mem he)) hfuel' hinner
        rw [Run.bind_ok hmember', ← hmember]
        rfl
      rw [stringify_go_object (hplain _ .refl), Run.bind_ok hentries, ← htext]
      rfl
    | _ =>
      rw [stringify_go_other (hplain _ .refl) (by simp) (by simp) (by simp), display_apply,
        Heap.display?_mono htext hfuel]
      rfl

end Machine

/--
Where no `__str__` gives another text, neither for a value nor for anything in its arrays and objects,
the text of a value that does not hold itself is found, and it is the text without hooks. Nothing
changes meanwhile.
-/
theorem texts_agree_without_hooks {s : State} {value : Value} (hends : ¬value.HoldsCycle s.heap.shown)
    (hplain : s.ShowsPlainly value)
    : ∃ text enough, ∀ m : Machine, enough ≤ m.fuel →
        s.heap.display? m.fuel value = some text ∧ m.stringify value s = .ok text s := by
  have hfinite := (Heap.isFinite_iff s.heap.shown_subset_compared).mpr hends
  rcases Heap.display?_of_isFinite hfinite with ⟨text, enough, htext⟩
  refine ⟨text, enough, ?_⟩
  intro m hfuel
  have htext := htext m.fuel hfuel
  exact ⟨htext, Machine.stringify_go_of_display? hplain (Nat.le_refl _) htext⟩

/-- An array with a number, and an object with a text and a method that is bound to that array. -/
theorem nested_texts_agree
    : let s := Engine.stateAfter
        (do
          let len ← Run.newNative ⟨"len", ["value"], .builtin .len⟩
          let object ← Run.newObject [("k", .str "v"), ("size", .bound 0 (.array ⟨0⟩) len)]
          _ ← Run.newArray #[.int 1, object])
        (Engine.bareState {} .silent 0)
      let value := Value.array ⟨0⟩
      ¬value.HoldsCycle s.heap.shown ∧ s.ShowsPlainly value ∧
        ∃ enough, ∀ m : Machine, enough ≤ m.fuel →
          m.stringify value s = .ok "[1, \x7bk: v, size: <bound method <builtin len>>\x7d]" s := by
  intro s value
  have hleaf {value : Value} (hshown : s.heap.shown value = []) : value.IsFinite s.heap.shown := by
    constructor
    intro part hpart
    rw [Value.IsPart, hshown] at hpart
    exact absurd hpart List.not_mem_nil
  have hfinite : value.IsFinite s.heap.shown := by
    constructor
    intro part hpart
    rcases List.mem_pair.mp hpart with rfl | rfl
    . exact hleaf rfl
    . constructor
      intro part hpart
      rcases List.mem_pair.mp hpart with rfl | rfl
      . exact hleaf rfl
      . constructor
        intro part hpart
        rw [List.mem_singleton.mp hpart]
        exact hleaf rfl
  have hplain : s.ShowsPlainly value := by
    apply State.ShowsPlainly.intro trivial
    intro part hpart
    rcases List.mem_pair.mp hpart with rfl | rfl
    . exact .intro rfl (List.forall_mem_nil _)
    . apply State.ShowsPlainly.intro rfl
      intro part hpart
      rcases List.mem_pair.mp hpart with rfl | rfl
      . exact .intro trivial (List.forall_mem_nil _)
      . exact .intro rfl (List.forall_mem_nil _)
  have hends := hfinite.not_holdsCycle
  rcases texts_agree_without_hooks hends hplain with ⟨text, enough, h⟩
  have htext : s.heap.display? 4 value = some "[1, \x7bk: v, size: <bound method <builtin len>>\x7d]" := by
    decide +kernel
  refine ⟨hends, hplain, max enough 4, ?_⟩
  intro m hfuel
  rcases h m (by omega) with ⟨hdisplay, hstringify⟩
  rw [Heap.display?_mono htext (by omega)] at hdisplay
  injection hdisplay with hdisplay
  rw [hstringify, hdisplay]

end ScriptEngine
