import ScriptEngine.Proofs.Cycles
import ScriptEngine.Proofs.DataComparison

/-!
This module contains which values have a text and which comparisons have a result. Where no hook is
called, the text of a value is found with enough steps unless the value holds itself, and otherwise with
none. Two values are compared with enough steps unless both of them hold themselves.
-/

namespace ScriptEngine

open Relation (ReflTransGen TransGen)

namespace State

variable {s : State} {value : Value}

/-- No `__str__` is called for the text of a value. Texts and arrays are not asked for one. -/
def ShowsPlainly (s : State) (value : Value) : Prop :=
  ∀ part, ReflTransGen (Value.IsPart s.heap.parts) part value →
    match part with
    | .str _ | .array _ => True
    | asked => Run.findHook asked "__str__" s = .ok none s

/-- No `__eq__` is called when a value is compared with another one. Only members are asked for one. -/
def ComparesPlainly (s : State) (value : Value) : Prop :=
  ∀ handle, ReflTransGen (Value.IsPart s.heap.parts) (.object handle) value →
    ∀ member ∈ s.heap.parts (.object handle), Run.findHook member "__eq__" s = .ok none s

theorem ShowsPlainly.part {part : Value} (h : s.ShowsPlainly value) (hpart : part ∈ s.heap.parts value)
    : s.ShowsPlainly part := by
  intro inner hinner
  exact h inner (hinner.tail hpart)

theorem ComparesPlainly.part {part : Value} (h : s.ComparesPlainly value) (hpart : part ∈ s.heap.parts value)
    : s.ComparesPlainly part := by
  intro handle hinner
  exact h handle (hinner.tail hpart)

end State

section Lists

variable {α β : Type} {as : List α} {s : State}

theorem mapM_gives_or_exhausted {f : α → Run β} {P : α → Prop}
    (h : ∀ a ∈ as, f a s = .error .exhausted s ∨ P a ∧ ∃ b, f a s = .ok b s)
    : as.mapM f s = .error .exhausted s ∨ (∀ a ∈ as, P a) ∧ ∃ bs, as.mapM f s = .ok bs s := by
  induction as with
  | nil => exact .inr ⟨by simp, [], rfl⟩
  | cons a as ih =>
    rw [List.forall_mem_cons] at h
    rw [List.mapM_cons]
    rcases h.1 with hspent | ⟨ha, b, hb⟩
    . exact .inl (Run.bind_error hspent)
    . rw [Run.bind_ok hb]
      rcases ih h.2 with hspent | ⟨has, bs, hbs⟩
      . exact .inl (Run.bind_error hspent)
      . rw [Run.bind_ok hbs, List.forall_mem_cons]
        exact .inr ⟨⟨ha, has⟩, b :: bs, rfl⟩

end Lists

/-- With enough steps a computation gives `a`, whatever machine it runs on, and changes nothing. -/
def Run.Finds {α : Type} (x : Machine → Nat → Run α) (s : State) (a : α) : Prop :=
  ∃ enough, ∀ m : Machine, ∀ depth, enough ≤ m.fuel → enough ≤ depth → x m depth s = .ok a s

/-- A machine that does nothing by itself. -/
def Machine.idle (fuel : Nat) : Machine := { Machine.spent with fuel := fuel }

namespace Run.Finds

variable {α β : Type} {x : Machine → Nat → Run α} {s : State} {a : α}

theorem pure (a : α) (s : State) : Finds (fun _ _ => Pure.pure a) s a := ⟨0, fun _ _ _ _ => rfl⟩

theorem bind {f : Machine → Nat → α → Run β} {b : β} (hx : Finds x s a)
    (hf : Finds (fun m depth => f m depth a) s b)
    : Finds (fun m depth => x m depth >>= f m depth) s b := by
  rcases hx with ⟨enough, hx⟩
  rcases hf with ⟨enough', hf⟩
  refine ⟨max enough enough', ?_⟩
  intro m depth hfuel hdepth
  dsimp only
  rw [Run.bind_ok (hx m depth (by omega) (by omega))]
  exact hf m depth (by omega) (by omega)

theorem succ {y : Machine → Nat → Run α} (h : ∀ m depth, x m (depth + 1) s = y m depth s) (hy : Finds y s a)
    : Finds x s a := by
  rcases hy with ⟨enough, hy⟩
  refine ⟨enough + 1, ?_⟩
  intro m depth hfuel hdepth
  cases depth with
  | zero => omega
  | succ depth => rw [h, hy m depth (by omega) (by omega)]

theorem congr {y : Machine → Nat → Run α} (h : ∀ m depth, x m depth s = y m depth s) (hy : Finds y s a)
    : Finds x s a := by
  rcases hy with ⟨enough, hy⟩
  exact ⟨enough, fun m depth hfuel hdepth => (h m depth).trans (hy m depth hfuel hdepth)⟩

theorem mapM {f : Machine → Nat → α → Run β} {as : List α}
    (h : ∀ a ∈ as, ∃ b, Finds (fun m depth => f m depth a) s b)
    : ∃ bs, Finds (fun m depth => as.mapM (f m depth)) s bs := by
  induction as with
  | nil => exact ⟨[], .pure [] s⟩
  | cons a as ih =>
    rw [List.forall_mem_cons] at h
    rcases h.1 with ⟨b, hb⟩
    rcases ih h.2 with ⟨bs, hbs⟩
    refine ⟨b :: bs, ?_⟩
    simp only [List.mapM_cons]
    exact hb.bind (hbs.bind (.pure _ s))

end Run.Finds

namespace Machine

variable {m : Machine} {s : State} {value : Value} {depth : Nat}

theorem display_apply (m : Machine) (value : Value) (s : State)
    : m.display value s = Run.ofOption (s.heap.display? m.fuel value) s := rfl

theorem display_cases (m : Machine) (value : Value) (s : State)
    : m.display value s = .error .exhausted s ∨
        Value.IsFinite s.heap.shown value ∧ ∃ text, m.display value s = .ok text s := by
  rw [display_apply]
  cases htext : s.heap.display? m.fuel value with
  | none => exact .inl rfl
  | some text => exact .inr ⟨Heap.display?_isFinite htext, text, rfl⟩

theorem display_finds (hfinite : Value.IsFinite s.heap.shown value)
    : ∃ text, Run.Finds (fun m _ => m.display value) s text := by
  rcases Heap.display?_of_isFinite hfinite with ⟨text, enough, htext⟩
  refine ⟨text, enough, ?_⟩
  intro m depth hfuel _
  dsimp only
  rw [display_apply, htext m.fuel hfuel]
  rfl

theorem stringify_go_array (m : Machine) (depth : Nat) (ref : ArrayRef) (s : State)
    : stringify.go m (depth + 1) (.array ref) s =
        ((s.heap.parts (.array ref)).mapM (fun item => stringify.go m depth item) >>= fun parts =>
          pure (Heap.listText parts)) s := rfl

theorem stringify_go_object {handle : Handle} (hook : Run.findHook (.object handle) "__str__" s = .ok none s)
    (m : Machine) (depth : Nat)
    : stringify.go m (depth + 1) (.object handle) s =
        ((s.heap.members handle).entries.mapM (fun e : String × Value => do
            let text ← stringify.go m depth e.2
            return e.1 ++ ": " ++ text) >>= fun parts =>
          pure (Heap.recordText parts)) s := by
  rw [stringify.go, Run.bind_ok hook]
  rfl

/-- The values that have a text of their own, apart from the hook. -/
theorem stringify_go_other (hook : Run.findHook value "__str__" s = .ok none s) (hstr : ∀ text, value ≠ .str text)
    (harray : ∀ ref, value ≠ .array ref) (hobject : ∀ handle, value ≠ .object handle) (m : Machine) (depth : Nat)
    : stringify.go m (depth + 1) value s = m.display value s := by
  cases value with
  | str text => exact absurd rfl (hstr text)
  | array ref => exact absurd rfl (harray ref)
  | object handle => exact absurd rfl (hobject handle)
  | _ =>
    rw [stringify.go, Run.bind_ok hook]
    all_goals nofun

theorem stringify_go_cases (hplain : s.ShowsPlainly value) (m : Machine) (depth : Nat)
    : stringify.go m depth value s = .error .exhausted s ∨
        Value.IsFinite s.heap.shown value ∧ ∃ text, stringify.go m depth value s = .ok text s := by
  induction depth generalizing value with
  | zero => exact .inl rfl
  | succ depth ih =>
    cases value with
    | str text => exact .inr ⟨⟨_, fun part hpart => absurd hpart List.not_mem_nil⟩, text, rfl⟩
    | array ref =>
      rw [stringify_go_array]
      rcases mapM_gives_or_exhausted fun item hitem => ih (hplain.part hitem) with hspent | ⟨hfinite, texts, htexts⟩
      . exact .inl (Run.bind_error hspent)
      . exact .inr ⟨⟨_, hfinite⟩, Heap.listText texts, Run.bind_ok htexts⟩
    | object handle =>
      rw [stringify_go_object (hplain _ .refl)]
      have hentries : ∀ e ∈ (s.heap.members handle).entries,
          (do
            let text ← stringify.go m depth e.2
            return e.1 ++ ": " ++ text : Run String) s = .error .exhausted s ∨
            Value.IsFinite s.heap.shown e.2 ∧ ∃ text, (do
              let text ← stringify.go m depth e.2
              return e.1 ++ ": " ++ text : Run String) s = .ok text s := by
        intro e he
        rcases ih (hplain.part (List.mem_map_of_mem he)) with hspent | ⟨hfinite, text, htext⟩
        . exact .inl (Run.bind_error hspent)
        . exact .inr ⟨hfinite, _, Run.bind_ok htext⟩
      rcases mapM_gives_or_exhausted hentries with hspent | ⟨hfinite, texts, htexts⟩
      . exact .inl (Run.bind_error hspent)
      . refine .inr ⟨⟨_, ?_⟩, Heap.recordText texts, Run.bind_ok htexts⟩
        intro part hpart
        rcases List.mem_map.mp hpart with ⟨e, he, hpart⟩
        rw [← hpart]
        exact hfinite e he
    | _ =>
      rw [stringify_go_other (hplain _ .refl) nofun nofun nofun]
      exact display_cases m _ s

theorem stringify_go_finds (hfinite : Value.IsFinite s.heap.shown value) (hplain : s.ShowsPlainly value)
    : ∃ text, Run.Finds (fun m depth => stringify.go m depth value) s text := by
  induction hfinite with
  | intro value hparts ih =>
    cases value with
    | str text => exact ⟨text, .succ (fun _ _ => rfl) (.pure text s)⟩
    | array ref =>
      rcases Run.Finds.mapM fun item hitem => ih item hitem (hplain.part hitem) with ⟨texts, htexts⟩
      exact ⟨_, .succ (fun m depth => stringify_go_array m depth ref s) (htexts.bind (.pure _ s))⟩
    | object handle =>
      have hentries : ∀ e ∈ (s.heap.members handle).entries, ∃ text, Run.Finds (fun m depth => (do
          let text ← stringify.go m depth e.2
          return e.1 ++ ": " ++ text : Run String)) s text := by
        intro e he
        have hmember : e.2 ∈ s.heap.parts (.object handle) := List.mem_map_of_mem he
        rcases ih e.2 hmember (hplain.part hmember) with ⟨text, htext⟩
        exact ⟨_, htext.bind (.pure _ s)⟩
      rcases Run.Finds.mapM hentries with ⟨texts, htexts⟩
      exact ⟨_, .succ (stringify_go_object (hplain _ .refl)) (htexts.bind (.pure _ s))⟩
    | _ =>
      rcases display_finds ⟨_, hparts⟩ with ⟨text, htext⟩
      exact ⟨text, .succ (stringify_go_other (hplain _ .refl) nofun nofun nofun) htext⟩

end Machine

/-- With these steps a computation gives up, or they and any more give the same result and change nothing. -/
def Run.Settles {α : Type} (x : Machine → Nat → Run α) (s : State) (m : Machine) (depth : Nat) : Prop :=
  x m depth s = .error .exhausted s ∨
    ∃ a, ∀ m' : Machine, ∀ depth', m.fuel ≤ m'.fuel → depth ≤ depth' → x m' depth' s = .ok a s

namespace Run.Settles

variable {α β : Type} {x : Machine → Nat → Run α} {s : State} {m : Machine} {depth : Nat}

theorem pure (a : α) : Settles (fun _ _ => Pure.pure a) s m depth := .inr ⟨a, fun _ _ _ _ => rfl⟩

theorem bind {f : Machine → Nat → α → Run β} (hx : Settles x s m depth)
    (hf : ∀ a, Settles (fun m depth => f m depth a) s m depth)
    : Settles (fun m depth => x m depth >>= f m depth) s m depth := by
  rcases hx with hspent | ⟨a, ha⟩
  . exact .inl (Run.bind_error hspent)
  . rcases hf a with hspent | ⟨b, hb⟩
    . exact .inl ((Run.bind_ok (ha m depth (Nat.le_refl _) (Nat.le_refl _))).trans hspent)
    . refine .inr ⟨b, ?_⟩
      intro m' depth' hfuel hdepth
      exact (Run.bind_ok (ha m' depth' hfuel hdepth)).trans (hb m' depth' hfuel hdepth)

theorem succ {y : Machine → Nat → Run α} (h : ∀ m depth, x m (depth + 1) s = y m depth s)
    (hy : Settles y s m depth)
    : Settles x s m (depth + 1) := by
  rcases hy with hspent | ⟨a, ha⟩
  . exact .inl ((h m depth).trans hspent)
  . refine .inr ⟨a, ?_⟩
    intro m' depth' hfuel hdepth
    cases depth' with
    | zero => omega
    | succ depth' => exact (h m' depth').trans (ha m' depth' hfuel (by omega))

theorem congr {y : Machine → Nat → Run α} (h : ∀ m depth, x m depth s = y m depth s) (hy : Settles y s m depth)
    : Settles x s m depth := by
  rcases hy with hspent | ⟨a, ha⟩
  . exact .inl ((h m depth).trans hspent)
  . exact .inr ⟨a, fun m' depth' hfuel hdepth => (h m' depth').trans (ha m' depth' hfuel hdepth)⟩

theorem gives_or_exhausted (h : Settles x s m depth)
    : x m depth s = .error .exhausted s ∨ ∃ a, x m depth s = .ok a s ∧ Finds x s a := by
  rcases h with hspent | ⟨a, ha⟩
  . exact .inl hspent
  . refine .inr ⟨a, ha m depth (Nat.le_refl _) (Nat.le_refl _), max m.fuel depth, ?_⟩
    intro m' depth' hfuel hdepth
    exact ha m' depth' (by omega) (by omega)

/-- Where a result is found with enough steps, no other one is found with less. -/
theorem of_finds {a : α} (h : Settles x s m depth) (hfinds : Finds x s a)
    : x m depth s = .error .exhausted s ∨ x m depth s = .ok a s := by
  rcases h.gives_or_exhausted with hspent | ⟨b, hb, enough, hfound⟩
  . exact .inl hspent
  . rcases hfinds with ⟨enough', hfound'⟩
    have hfound := hfound (.idle (max enough enough')) (max enough enough') (Nat.le_max_left ..)
      (Nat.le_max_left ..)
    have hfound' := hfound' (.idle (max enough enough')) (max enough enough') (Nat.le_max_right ..)
      (Nat.le_max_right ..)
    have hsame := hfound.symm.trans hfound'
    injection hsame with hsame
    rw [hsame] at hb
    exact .inr hb

end Run.Settles

/-- A comparison of two values, as far as the steps go. -/
def Machine.comparing (a b : Value) (m : Machine) (depth : Nat) : Run Comparison := compareValues.go m depth a b

/-- The kinds of values that are the same or not, without an order. -/
def Value.isIncomparable : Value → Bool
  | .type _ | .func _ | .native _ | .bound .. | .host _ => true
  | _ => false

/-- The comparison of two values comes to that of two others, since all that it looks at before is equal. -/
inductive State.ComesTo (s : State) : Value → Value → Value → Value → Prop where
  | items {x y : ArrayRef} {a b : Value} {as as' bs bs' : List Value} (hne : x ≠ y)
      (hx : (s.heap.items x).toList = as ++ a :: as') (hy : (s.heap.items y).toList = bs ++ b :: bs')
      (hequal : List.Forall₂ (fun a b => Run.Finds (Machine.comparing a b) s .eq) as bs)
      : s.ComesTo (.array x) (.array y) a b
  | members {x y : Handle} {name : String} {a b : Value} {es es' : List (String × Value)}
      (hne : x.sameInstance y = false) (hsize : (s.heap.members x).size = (s.heap.members y).size)
      (hx : (s.heap.members x).entries = es ++ (name, a) :: es') (hy : (s.heap.members y).get? name = some b)
      (hequal : ∀ e ∈ es, ∃ b, (s.heap.members y).get? e.1 = some b ∧ Run.Finds (Machine.comparing e.2 b) s .eq)
      : s.ComesTo (.object x) (.object y) a b

/--
The comparison of two values comes to that of two others, and so on forever, or it comes to functions
whose equality by structure does not show.
-/
def State.Endless (s : State) (a b : Value) : Prop :=
  ∃ R : Value → Value → Prop, R a b ∧
    ∀ a b, R a b →
      (∃ a' b', s.ComesTo a b a' b' ∧ R a' b') ∨
        (a.isIncomparable = true ∧ ∀ depth, s.heap.same? depth a b = none)

theorem State.ComesTo.parts {s : State} {a b a' b' : Value} (h : s.ComesTo a b a' b')
    : a' ∈ s.heap.parts a ∧ b' ∈ s.heap.parts b := by
  cases h with
  | @items x y _ _ as as' bs bs' hne hx hy =>
    have hparts : s.heap.parts (.array x) = as ++ a' :: as' := hx
    have hparts' : s.heap.parts (.array y) = bs ++ b' :: bs' := hy
    rw [hparts, hparts']
    exact ⟨List.mem_append_right _ List.mem_cons_self, List.mem_append_right _ List.mem_cons_self⟩
  | @members x y name _ _ es es' hne hsize hx hy =>
    have hmember : (name, a') ∈ (s.heap.members x).entries := by
      rw [hx]
      exact List.mem_append_right _ List.mem_cons_self
    exact ⟨List.mem_map_of_mem hmember, List.mem_map_of_mem ((Members.mem_entries_iff _).mpr hy)⟩

namespace Machine

section Compare

variable {s : State} {m : Machine} {depth : Nat} {a b : Value} {as bs : List Value}

theorem compare_go_array {x y : ArrayRef} (hne : x ≠ y) (m : Machine) (depth : Nat)
    : compareValues.go m (depth + 1) (.array x) (.array y) s =
        compareItems (fun a b => comparing a b m depth) (s.heap.items x).toList (s.heap.items y).toList s := by
  rw [compareValues.go, if_neg (by simpa using hne)]
  rfl

theorem compare_go_object {x y : Handle} (hne : x.sameInstance y = false)
    (hsize : (s.heap.members x).size = (s.heap.members y).size) (m : Machine) (depth : Nat)
    : compareValues.go m (depth + 1) (.object x) (.object y) s =
        (sameMembers (m.equalBy fun a b => comparing a b m depth) (s.heap.members y) (s.heap.members x).entries >>=
          fun same => pure (if same then .eq else .unrelated)) s := by
  rw [compareValues.go, if_neg (by simp [hne])]
  show (if (s.heap.members x).size != (s.heap.members y).size then _ else _ : Run Comparison) s = _
  rw [if_neg (by simp [hsize])]
  rfl

theorem equalBy_plain {compare : Value → Value → Run Comparison} (hook : Run.findHook a "__eq__" s = .ok none s)
    : m.equalBy compare a b s = (compare a b >>= fun c => pure (c == .eq)) s := by
  rw [equalBy, Run.bind_ok hook]

theorem compare_go_numbers (ha : Operands.isNumber a = true) (hb : Operands.isNumber b = true)
    : ∃ c, ∀ m depth, compareValues.go m (depth + 1) a b s = .ok c s := by
  have hgo (m : Machine) (depth : Nat) : compareValues.go m (depth + 1) a b s =
      (Operands.promote? a b).elim (pure .unrelated : Run Comparison) (fun o => pure o.order) s := by
    cases a <;> cases b <;> first
      | rfl
      | cases ha; done
      | unfold compareValues.go; generalize Operands.promote? _ _ = operands; cases operands <;> rfl
  cases hoperands : Operands.promote? a b with
  | none =>
    refine ⟨.unrelated, ?_⟩
    intro m depth
    rw [hgo, hoperands]
    rfl
  | some operands =>
    refine ⟨operands.order, ?_⟩
    intro m depth
    rw [hgo, hoperands]
    rfl

/-- The ways to compare two values. -/
theorem compare_cases (s : State) (a b : Value)
    : (∃ c, ∀ m depth, compareValues.go m (depth + 1) a b s = .ok c s) ∨
        (∃ x y, a = .array x ∧ b = .array y ∧ x ≠ y) ∨
        (∃ x y, a = .object x ∧ b = .object y ∧ x.sameInstance y = false ∧
          (s.heap.members x).size = (s.heap.members y).size) ∨
        (a.isIncomparable = true ∧ ∀ m depth, compareValues.go m (depth + 1) a b s = m.compareIdentity a b s) := by
  cases a with
  | bytes x =>
    cases b with
    | bytes y =>
      by_cases hxy : x = y
      . refine .inl ⟨.eq, ?_⟩
        intro m depth
        rw [compareValues.go, if_pos (beq_iff_eq.mpr hxy)]
        rfl
      . refine .inl ⟨.ofOrdering (bytesOrder (s.heap.data x).toList (s.heap.data y).toList), ?_⟩
        intro m depth
        rw [compareValues.go, if_neg (by simpa using hxy)]
        rfl
    | _ => exact .inl ⟨.unrelated, fun _ _ => rfl⟩
  | array x =>
    cases b with
    | array y =>
      by_cases hxy : x = y
      . refine .inl ⟨.eq, ?_⟩
        intro m depth
        rw [compareValues.go, if_pos (beq_iff_eq.mpr hxy)]
        rfl
      . exact .inr (.inl ⟨x, y, rfl, rfl, hxy⟩)
    | _ => exact .inl ⟨.unrelated, fun _ _ => rfl⟩
  | object x =>
    cases b with
    | object y =>
      cases hxy : x.sameInstance y with
      | true =>
        refine .inl ⟨.eq, ?_⟩
        intro m depth
        rw [compareValues.go, if_pos hxy]
        rfl
      | false =>
        by_cases hsize : (s.heap.members x).size = (s.heap.members y).size
        . exact .inr (.inr (.inl ⟨x, y, rfl, rfl, hxy, hsize⟩))
        . refine .inl ⟨.unrelated, ?_⟩
          intro m depth
          rw [compareValues.go, if_neg (by simp [hxy])]
          show (if (s.heap.members x).size != (s.heap.members y).size then _ else _ : Run Comparison) s = _
          rw [if_pos (by simpa using hsize)]
          rfl
    | _ => exact .inl ⟨.unrelated, fun _ _ => rfl⟩
  | type | func | native | bound | host => exact .inr (.inr (.inr ⟨rfl, fun _ _ => rfl⟩))
  | int _ | float _ | decimal _ =>
    cases b with
    | int _ | float _ | decimal _ => exact .inl (compare_go_numbers rfl rfl)
    | _ => exact .inl ⟨.unrelated, fun _ _ => rfl⟩
  | _ => cases b <;> exact .inl ⟨_, fun _ _ => rfl⟩

theorem compareIdentity_apply (m : Machine) (a b : Value) (s : State)
    : m.compareIdentity a b s =
        (Run.ofOption (s.heap.same? m.fuel a b) >>= fun same => pure (if same then .eq else .unrelated)) s := rfl

theorem compareIdentity_settles (a b : Value) (s : State) (m : Machine) (depth : Nat)
    : Run.Settles (fun m _ => m.compareIdentity a b) s m depth := by
  cases hsame : s.heap.same? m.fuel a b with
  | none =>
    left
    dsimp only
    rw [compareIdentity_apply, hsame]
    rfl
  | some same =>
    refine .inr ⟨if same then .eq else .unrelated, ?_⟩
    intro m' _ hfuel _
    dsimp only
    rw [compareIdentity_apply, Heap.same?_mono hsame hfuel]
    rfl

theorem compareIdentity_finds_iff
    : (∃ c, Run.Finds (fun m _ => m.compareIdentity a b) s c) ↔ ∃ depth, (s.heap.same? depth a b).isSome := by
  constructor
  . rintro ⟨c, enough, hfound⟩
    refine ⟨enough, ?_⟩
    have hfound := (compareIdentity_apply _ a b s).symm.trans
      (hfound (.idle enough) enough (Nat.le_refl _) (Nat.le_refl _))
    cases hsame : s.heap.same? enough a b with
    | none =>
      have hspent := hfound.symm.trans (Run.bind_error (congrArg (Run.ofOption · s) hsame))
      cases hspent
    | some same => rfl
  . rintro ⟨depth, hsame⟩
    rcases Option.isSome_iff_exists.mp hsame with ⟨same, hsame⟩
    refine ⟨if same then .eq else .unrelated, depth, ?_⟩
    intro m _ hfuel _
    dsimp only
    rw [compareIdentity_apply, Heap.same?_mono hsame hfuel]
    rfl

theorem compareItems_settles {f : Value → Value → Machine → Nat → Run Comparison}
    (h : ∀ a ∈ as, ∀ b ∈ bs, Run.Settles (f a b) s m depth)
    : Run.Settles (fun m depth => compareItems (fun a b => f a b m depth) as bs) s m depth := by
  induction as generalizing bs with
  | nil => cases bs <;> exact .pure _
  | cons a as ih =>
    cases bs with
    | nil => exact .pure _
    | cons b bs =>
      have hfirst := h a List.mem_cons_self b List.mem_cons_self
      have hrest := ih fun a' ha b' hb => h a' (List.mem_cons_of_mem a ha) b' (List.mem_cons_of_mem b hb)
      simp only [compareItems]
      apply hfirst.bind
      intro c
      split
      . exact hrest
      . exact .pure c

theorem sameMembers_settles {f : Value → Value → Machine → Nat → Run Bool} {other : Members}
    {entries : List (String × Value)}
    (h : ∀ e ∈ entries, ∀ b, other.get? e.1 = some b → Run.Settles (f e.2 b) s m depth)
    : Run.Settles (fun m depth => sameMembers (fun a b => f a b m depth) other entries) s m depth := by
  induction entries with
  | nil => exact .pure _
  | cons e entries ih =>
    have hrest := ih fun e' he => h e' (List.mem_cons_of_mem e he)
    simp only [sameMembers]
    cases hget : other.get? e.1 with
    | none => exact .pure _
    | some b =>
      apply (h e List.mem_cons_self b hget).bind
      intro equal
      cases equal with
      | false => exact .pure _
      | true => exact hrest

theorem comparing_settles (hplain : s.ComparesPlainly a) (m : Machine) (depth : Nat)
    : Run.Settles (comparing a b) s m depth := by
  induction depth generalizing a b with
  | zero => exact .inl rfl
  | succ depth ih =>
    rcases compare_cases s a b with ⟨c, h⟩ | ⟨x, y, rfl, rfl, hne⟩ | ⟨x, y, rfl, rfl, hne, hsize⟩ | ⟨_, h⟩
    . exact .succ h (.pure c)
    . apply Run.Settles.succ (compare_go_array hne)
      apply compareItems_settles
      intro a ha b _
      exact ih (hplain.part ha)
    . apply Run.Settles.succ (compare_go_object hne hsize)
      refine .bind (sameMembers_settles (f := fun a b m depth => m.equalBy (fun a b => comparing a b m depth) a b) ?_)
        fun same => .pure _
      intro e he b _
      have hmember : e.2 ∈ s.heap.parts (.object x) := List.mem_map_of_mem he
      apply Run.Settles.congr fun m depth => equalBy_plain (hplain x .refl e.2 hmember)
      exact (ih (hplain.part hmember)).bind fun c => .pure _
    . exact .succ h (compareIdentity_settles a b s m depth)

/-- Where a comparison of items finds no result, some items that follow on equal ones have none. -/
theorem compareItems_finds
    : (∃ c, Run.Finds (fun m depth => compareItems (fun a b => comparing a b m depth) as bs) s c) ∨
        ∃ as₁ a as₂ bs₁ b bs₂, as = as₁ ++ a :: as₂ ∧ bs = bs₁ ++ b :: bs₂ ∧
          List.Forall₂ (fun a b => Run.Finds (comparing a b) s .eq) as₁ bs₁ ∧
            ¬∃ c, Run.Finds (comparing a b) s c := by
  induction as generalizing bs with
  | nil => cases bs <;> exact .inl ⟨_, .pure _ s⟩
  | cons a as ih =>
    cases bs with
    | nil => exact .inl ⟨_, .pure _ s⟩
    | cons b bs =>
      by_cases hfirst : ∃ c, Run.Finds (comparing a b) s c
      . rcases hfirst with ⟨c, hc⟩
        by_cases hequal : c = .eq
        . rw [hequal] at hc
          rcases @ih bs with ⟨c', hrest⟩ | ⟨as₁, a', as₂, bs₁, b', bs₂, has, hbs, hbefore, hnone⟩
          . refine .inl ⟨c', ?_⟩
            simp only [compareItems]
            exact hc.bind hrest
          . rw [has, hbs]
            exact .inr ⟨a :: as₁, a', as₂, b :: bs₁, b', bs₂, rfl, rfl, .cons hc hbefore, hnone⟩
        . refine .inl ⟨c, ?_⟩
          simp only [compareItems]
          apply hc.bind
          simp only [beq_eq_false_iff_ne.mpr hequal]
          exact .pure c s
      . exact .inr ⟨[], a, as, [], b, bs, rfl, rfl, .nil, hfirst⟩

theorem sameMembers_finds {other : Members} {entries : List (String × Value)}
    (hplain : ∀ e ∈ entries, Run.findHook e.2 "__eq__" s = .ok none s)
    : (∃ same, Run.Finds
          (fun m depth => sameMembers (m.equalBy fun a b => comparing a b m depth) other entries) s same) ∨
        ∃ es name a es' b, entries = es ++ (name, a) :: es' ∧ other.get? name = some b ∧
          (∀ e ∈ es, ∃ b, other.get? e.1 = some b ∧ Run.Finds (comparing e.2 b) s .eq) ∧
          ¬∃ c, Run.Finds (comparing a b) s c := by
  induction entries with
  | nil => exact .inl ⟨_, .pure _ s⟩
  | cons e entries ih =>
    rw [List.forall_mem_cons] at hplain
    cases hget : other.get? e.1 with
    | none =>
      left
      simp only [sameMembers, hget]
      exact ⟨_, .pure _ s⟩
    | some b =>
      by_cases hfirst : ∃ c, Run.Finds (comparing e.2 b) s c
      . rcases hfirst with ⟨c, hc⟩
        have hequal : Run.Finds (fun m depth => m.equalBy (fun a b => comparing a b m depth) e.2 b) s (c == .eq) := by
          apply Run.Finds.congr fun m depth => equalBy_plain hplain.1
          exact hc.bind (.pure _ s)
        by_cases heq : c = .eq
        . rw [heq] at hc hequal
          rcases ih hplain.2 with ⟨same, hrest⟩ | ⟨es, name, a, es', b', hentries, hget', hbefore, hnone⟩
          . refine .inl ⟨same, ?_⟩
            simp only [sameMembers, hget]
            exact hequal.bind hrest
          . refine .inr ⟨e :: es, name, a, es', b', ?_, hget', ?_, hnone⟩
            . rw [hentries]
              rfl
            . rw [List.forall_mem_cons]
              exact ⟨⟨b, hget, hc⟩, hbefore⟩
        . refine .inl ⟨false, ?_⟩
          simp only [sameMembers, hget]
          apply hequal.bind
          rw [beq_eq_false_iff_ne.mpr heq]
          exact .pure false s
      . exact .inr ⟨[], e.1, e.2, entries, b, rfl, hget, by simp, hfirst⟩

/-- Where a comparison finds no result, it comes to another one that finds none. -/
theorem comparing_comesTo (hplain : s.ComparesPlainly a) (hnone : ¬∃ c, Run.Finds (comparing a b) s c)
    : (∃ a' b', s.ComesTo a b a' b' ∧ ¬∃ c, Run.Finds (comparing a' b') s c) ∨
        (a.isIncomparable = true ∧ ∀ depth, s.heap.same? depth a b = none) := by
  rcases compare_cases s a b with ⟨c, h⟩ | ⟨x, y, rfl, rfl, hne⟩ | ⟨x, y, rfl, rfl, hne, hsize⟩ | ⟨hkind, h⟩
  . exact absurd ⟨c, .succ h (.pure c s)⟩ hnone
  . rcases compareItems_finds with ⟨c, hc⟩ | ⟨as, a, as', bs, b, bs', hx, hy, hequal, hnone⟩
    . exact absurd ⟨c, .succ (compare_go_array hne) hc⟩ hnone
    . exact .inl ⟨a, b, .items hne hx hy hequal, hnone⟩
  . rcases sameMembers_finds fun e he => hplain x .refl e.2 (List.mem_map_of_mem he) with
      ⟨same, hsame⟩ | ⟨es, name, a, es', b, hx, hy, hequal, hnone⟩
    . exact absurd ⟨_, .succ (compare_go_object hne hsize) (hsame.bind (.pure _ s))⟩ hnone
    . exact .inl ⟨a, b, .members hne hsize hx hy hequal, hnone⟩
  . right
    refine ⟨hkind, ?_⟩
    intro depth
    by_contra hsome
    apply hnone
    rcases compareIdentity_finds_iff.mpr ⟨depth, Option.isSome_iff_ne_none.mpr hsome⟩ with ⟨c, hc⟩
    exact ⟨c, .succ h hc⟩

theorem compareItems_exhausted {as₁ as₂ bs₁ bs₂ : List Value} (hplain : ∀ a ∈ as₁, s.ComparesPlainly a)
    (hequal : List.Forall₂ (fun a b => Run.Finds (comparing a b) s .eq) as₁ bs₁)
    (hspent : comparing a b m depth s = .error .exhausted s)
    : compareItems (fun a b => comparing a b m depth) (as₁ ++ a :: as₂) (bs₁ ++ b :: bs₂) s =
        .error .exhausted s := by
  induction hequal with
  | nil => exact Run.bind_error hspent
  | cons hfirst _ ih =>
    rw [List.forall_mem_cons] at hplain
    rcases (comparing_settles hplain.1 m depth).of_finds hfirst with hgave | hfound
    . exact Run.bind_error hgave
    . exact (Run.bind_ok hfound).trans (ih hplain.2)

theorem sameMembers_exhausted {other : Members} {es es' : List (String × Value)} {name : String}
    (hplain : ∀ e ∈ es, s.ComparesPlainly e.2)
    (hook : ∀ e ∈ es ++ [(name, a)], Run.findHook e.2 "__eq__" s = .ok none s)
    (hequal : ∀ e ∈ es, ∃ b, other.get? e.1 = some b ∧ Run.Finds (comparing e.2 b) s .eq)
    (hget : other.get? name = some b) (hspent : comparing a b m depth s = .error .exhausted s)
    : sameMembers (m.equalBy fun a b => comparing a b m depth) other (es ++ (name, a) :: es') s =
        .error .exhausted s := by
  induction es with
  | nil =>
    rw [List.nil_append, List.forall_mem_singleton] at hook
    rw [List.nil_append, sameMembers, hget]
    exact Run.bind_error ((equalBy_plain hook).trans (Run.bind_error hspent))
  | cons e es ih =>
    rw [List.cons_append, List.forall_mem_cons] at hook
    rw [List.forall_mem_cons] at hplain hequal
    rcases hequal.1 with ⟨b, hget, hfirst⟩
    rw [List.cons_append, sameMembers, hget]
    rcases (comparing_settles hplain.1 m depth).of_finds hfirst with hgave | hfound
    . exact Run.bind_error ((equalBy_plain hook.1).trans (Run.bind_error hgave))
    . have hsame : m.equalBy (fun a b => comparing a b m depth) e.2 b s = .ok true s :=
        (equalBy_plain hook.1).trans (Run.bind_ok hfound)
      exact (Run.bind_ok hsame).trans (ih hplain.2 hook.2 hequal.2)

theorem comparing_of_endless (h : s.Endless a b) (hplain : s.ComparesPlainly a) (m : Machine) (depth : Nat)
    : comparing a b m depth s = .error .exhausted s := by
  induction depth generalizing a b with
  | zero => rfl
  | succ depth ih =>
    rcases h with ⟨R, hab, hR⟩
    rcases hR a b hab with ⟨a', b', hcomes, hab'⟩ | ⟨hkind, hnone⟩
    . have hspent : comparing a' b' m depth s = .error .exhausted s :=
        ih ⟨R, hab', hR⟩ (hplain.part hcomes.parts.1)
      cases hcomes with
      | @items x y _ _ as as' bs bs' hne hx hy hequal =>
        apply (compare_go_array hne m depth).trans
        rw [hx, hy]
        refine compareItems_exhausted ?_ hequal hspent
        intro a ha
        have hitem : a ∈ (s.heap.items x).toList := by
          rw [hx]
          exact List.mem_append_left _ ha
        exact hplain.part hitem
      | @members x y name _ _ es es' hne hsize hx hy hequal =>
        have hmember {e : String × Value} (he : e ∈ es ++ [(name, a')]) : e.2 ∈ s.heap.parts (.object x) := by
          apply List.mem_map_of_mem
          rw [hx, List.append_cons]
          exact List.mem_append_left _ he
        apply (compare_go_object hne hsize m depth).trans
        rw [hx]
        refine Run.bind_error (sameMembers_exhausted ?_ ?_ hequal hy hspent)
        . intro e he
          exact hplain.part (hmember (List.mem_append_left _ he))
        . intro e he
          exact hplain x .refl e.2 (hmember he)
    . have hgo : compareValues.go m (depth + 1) a b s = m.compareIdentity a b s := by
        cases a <;> first | rfl | cases hkind
      apply hgo.trans
      rw [compareIdentity_apply, hnone]
      rfl

theorem endless_of_not_finds (hplain : s.ComparesPlainly a) (hnone : ¬∃ c, Run.Finds (comparing a b) s c)
    : s.Endless a b := by
  refine ⟨fun a b => s.ComparesPlainly a ∧ ¬∃ c, Run.Finds (comparing a b) s c, ⟨hplain, hnone⟩, ?_⟩
  rintro a b ⟨hplain, hnone⟩
  rcases comparing_comesTo hplain hnone with ⟨a', b', hcomes, hnone'⟩ | hidentity
  . exact .inl ⟨a', b', hcomes, hplain.part hcomes.parts.1, hnone'⟩
  . exact .inr hidentity

end Compare

end Machine

namespace State.Endless

variable {s : State} {a b : Value}

/-- An endless comparison comes to another one, or it looks for identity without end. -/
theorem step (h : s.Endless a b)
    : (∃ a' b', s.ComesTo a b a' b' ∧ s.Endless a' b') ∨
        ¬a.IsFinite s.heap.compared ∧ ¬b.IsFinite s.heap.compared := by
  rcases h with ⟨R, hab, hR⟩
  rcases hR a b hab with ⟨a', b', hcomes, hab'⟩ | ⟨_, hsame⟩
  . exact .inl ⟨a', b', hcomes, R, hab', hR⟩
  . right
    constructor
    . intro hfinite
      rcases Heap.same?_of_isFinite hfinite with ⟨enough, hfound⟩
      have hsome := (hfound enough (Nat.le_refl _) b).1
      rw [hsame] at hsome
      cases hsome
    . intro hfinite
      rcases Heap.same?_of_isFinite hfinite with ⟨enough, hfound⟩
      have hsome := (hfound enough (Nat.le_refl _) a).2
      rw [hsame] at hsome
      cases hsome

/-- What goes on in a part of each value that it holds of does not come to an end. -/
theorem holdsCycle_of_step {P : Value → Prop} {v : Value}
    (hstep : ∀ v, P v → (∃ part ∈ s.heap.parts v, P part) ∨ ¬v.IsFinite s.heap.compared) (hv : P v)
    : v.HoldsCycle s.heap.compared := by
  by_contra hnone
  have hfinite := (Heap.isFinite_iff fun _ => List.Subset.refl _).mpr hnone
  clear hnone
  induction hfinite with
  | intro v hparts ih =>
    rcases hstep v hv with ⟨part, hpart, hholds⟩ | hinfinite
    . exact ih part (s.heap.parts_subset_compared v hpart) hholds
    . exact hinfinite ⟨v, hparts⟩

theorem left (h : s.Endless a b) : a.HoldsCycle s.heap.compared := by
  apply holdsCycle_of_step (P := fun a => ∃ b, s.Endless a b) ?_ ⟨b, h⟩
  rintro a ⟨b, h⟩
  rcases h.step with ⟨a', b', hcomes, h'⟩ | ⟨hinfinite, _⟩
  . exact .inl ⟨a', hcomes.parts.1, b', h'⟩
  . exact .inr hinfinite

theorem right (h : s.Endless a b) : b.HoldsCycle s.heap.compared := by
  apply holdsCycle_of_step (P := fun b => ∃ a, s.Endless a b) ?_ ⟨a, h⟩
  rintro b ⟨a, h⟩
  rcases h.step with ⟨a', b', hcomes, h'⟩ | ⟨_, hinfinite⟩
  . exact .inl ⟨b', hcomes.parts.2, a', h'⟩
  . exact .inr hinfinite

end State.Endless

/--
The text of a value, and its comparison with another one, where no hook is called. A value has a text,
which is found with enough steps, if and only if nothing in it holds itself. Two values can be compared,
with enough steps, unless their comparison comes to other ones forever; and that happens only if both
of them hold a value that holds itself.
-/
theorem texts_and_comparisons_end {s : State} {a : Value} (hshows : s.ShowsPlainly a)
    (hcompares : s.ComparesPlainly a) (b : Value)
    : (¬a.HoldsCycle s.heap.shown → ∃ text enough, ∀ m : Machine, enough ≤ m.fuel → m.stringify a s = .ok text s) ∧
        (a.HoldsCycle s.heap.shown → ∀ m : Machine, m.stringify a s = .error .exhausted s) ∧
        (¬s.Endless a b → ∃ c enough, ∀ m : Machine, enough ≤ m.fuel → m.compareValues a b s = .ok c s) ∧
        (s.Endless a b → ∀ m : Machine, m.compareValues a b s = .error .exhausted s) ∧
        (s.Endless a b → a.HoldsCycle s.heap.compared ∧ b.HoldsCycle s.heap.compared) := by
  have hfinite : a.IsFinite s.heap.shown ↔ ¬a.HoldsCycle s.heap.shown :=
    Heap.isFinite_iff s.heap.shown_subset_compared
  refine ⟨?_, ?_, ?_, ?_, ?_⟩
  . intro hcycle
    rcases Machine.stringify_go_finds (hfinite.mpr hcycle) hshows with ⟨text, enough, htext⟩
    exact ⟨text, enough, fun m hfuel => htext m m.fuel hfuel hfuel⟩
  . intro hcycle m
    rcases Machine.stringify_go_cases hshows m m.fuel with hspent | ⟨hnone, _⟩
    . exact hspent
    . exact absurd hcycle (hfinite.mp hnone)
  . intro hends
    by_contra hnone
    apply hends
    apply Machine.endless_of_not_finds hcompares
    rintro ⟨c, enough, hc⟩
    exact hnone ⟨c, enough, fun m hfuel => hc m m.fuel hfuel hfuel⟩
  . intro hendless m
    exact Machine.comparing_of_endless hendless hcompares m m.fuel
  . intro hendless
    exact ⟨hendless.left, hendless.right⟩

/-- Two arrays that hold themselves have no text and cannot be compared, but any other array compares with them. -/
theorem cyclic_arrays_never_end
    : let s := Engine.stateAfter
        (do
          _ ← Run.newArray #[.array ⟨0⟩]
          _ ← Run.newArray #[.array ⟨1⟩]
          _ ← Run.newArray #[.int 1])
        (Engine.bareState {} .silent 0)
      let a := Value.array ⟨0⟩
      let b := Value.array ⟨1⟩
      s.ShowsPlainly a ∧ s.ComparesPlainly a ∧
        (∀ m : Machine, m.stringify a s = .error .exhausted s) ∧
        (∀ m : Machine, m.compareValues a b s = .error .exhausted s) ∧
        ∃ c enough, ∀ m : Machine, enough ≤ m.fuel → m.compareValues a (.array ⟨2⟩) s = .ok c s := by
  intro s a b
  have honly : ∀ part, ReflTransGen (Value.IsPart s.heap.parts) part a → part = a := by
    intro part hpart
    induction hpart using ReflTransGen.head_induction_on with
    | refl => rfl
    | head hpart _ ih =>
      rw [ih] at hpart
      exact List.mem_singleton.mp hpart
  have hshows : s.ShowsPlainly a := by
    intro part hpart
    rw [honly part hpart]
    trivial
  have hcompares : s.ComparesPlainly a := by
    intro handle hhandle
    have harray : Value.object handle = .array ⟨0⟩ := honly _ hhandle
    cases harray
  have hcycle : a.HoldsCycle s.heap.shown := ⟨a, .refl, .single (List.mem_singleton.mpr rfl)⟩
  have hendless : s.Endless a b := by
    refine ⟨fun x y => x = a ∧ y = b, ⟨rfl, rfl⟩, ?_⟩
    rintro x y ⟨hx, hy⟩
    rw [hx, hy]
    have hcomes : s.ComesTo a b a b := .items nofun (rfl : _ = [] ++ a :: []) (rfl : _ = [] ++ b :: []) .nil
    exact .inl ⟨a, b, hcomes, rfl, rfl⟩
  have hends : ¬s.Endless a (.array ⟨2⟩) := by
    intro hendless
    have hfinite : Value.IsFinite s.heap.compared (.array ⟨2⟩) := by
      constructor
      intro part hpart
      rw [List.mem_singleton.mp hpart]
      exact ⟨_, fun inner hinner => absurd hinner List.not_mem_nil⟩
    exact hfinite.not_holdsCycle hendless.right
  have h := texts_and_comparisons_end hshows hcompares b
  refine ⟨hshows, hcompares, h.2.1 hcycle, h.2.2.2.1 hendless, ?_⟩
  exact (texts_and_comparisons_end hshows hcompares (.array ⟨2⟩)).2.2.1 hends

end ScriptEngine
