import ScriptEngine.Proofs.Endings

/-!
This module contains how equality by structure is related to the comparison of scripts: values of the same
structure compare as equal. The first looks at the types of objects and at the order of their members, and
the second does not, but it brings numbers of different kinds together.
-/

namespace ScriptEngine

open Relation (ReflTransGen)

namespace Heap

variable {α : Type} {same? : α → α → Option Bool} {as bs : List α}

/-- Nothing in a value is a floating point number. -/
def IsFloatFree (h : Heap) (value : Value) : Prop :=
  ∀ f, ¬ReflTransGen (Value.IsPart h.parts) (.float f) value

theorem IsFloatFree.part {h : Heap} {value part : Value} (hfree : h.IsFloatFree value) (hpart : part ∈ h.parts value)
    : h.IsFloatFree part := by
  intro f hinner
  exact hfree f (hinner.tail hpart)

theorem IsFloatFree.intro {h : Heap} {value : Value} (hself : ∀ f, value ≠ .float f)
    (hparts : ∀ part ∈ h.parts value, h.IsFloatFree part)
    : h.IsFloatFree value := by
  intro f hinner
  rcases hinner.cases_tail with heq | ⟨part, hinner, hpart⟩
  . exact hself f heq
  . exact hparts part hpart f hinner

theorem forall₂_of_sameLists? (hsame : sameLists? same? as bs = some true)
    : List.Forall₂ (fun a b => same? a b = some true) as bs := by
  fun_induction sameLists? same? as bs with
  | case1 => exact .nil
  | case2 a as b bs hfirst ih => exact .cons hfirst (ih hsame)
  | case3 a as b bs hother => exact absurd hsame hother
  | case4 => cases hsame

theorem exists_of_forall₂ {β : Type} {R : α → β → Prop} {bs : List β} (h : List.Forall₂ R as bs) {a : α} (ha : a ∈ as)
    : ∃ b ∈ bs, R a b := by
  induction h with
  | nil => exact absurd ha List.not_mem_nil
  | @cons a' b as bs hab _ ih =>
    rcases List.mem_cons.mp ha with rfl | ha
    . exact ⟨b, List.mem_cons_self, hab⟩
    . rcases ih ha with ⟨b', hb', hab⟩
      exact ⟨b', List.mem_cons_of_mem b hb', hab⟩

end Heap

theorem State.ComparesPlainly.intro {s : State} {value : Value}
    (hook : ∀ handle, value = .object handle → ∀ member ∈ s.heap.parts value,
      Run.findHook member "__eq__" s = .ok none s)
    (hparts : ∀ part ∈ s.heap.parts value, s.ComparesPlainly part)
    : s.ComparesPlainly value := by
  intro handle hinner
  rcases hinner.cases_tail with heq | ⟨part, hinner, hpart⟩
  . rw [← heq]
    exact hook handle heq
  . exact hparts part hpart handle hinner

namespace Machine

variable {m : Machine} {s : State} {a b : Value} {depth fuel : Nat}

theorem compareItems_of_equal {compare : Value → Value → Run Comparison} {as bs : List Value}
    (h : List.Forall₂ (fun a b => compare a b s = .ok .eq s) as bs)
    : compareItems compare as bs s = .ok .eq s := by
  induction h with
  | nil => rfl
  | cons hfirst _ ih =>
    rw [compareItems, Run.bind_ok hfirst]
    exact ih

theorem sameMembers_of_equal {equal : Value → Value → Run Bool} {other : Members} {entries : List (String × Value)}
    (h : ∀ e ∈ entries, ∃ b, other.get? e.1 = some b ∧ equal e.2 b s = .ok true s)
    : sameMembers equal other entries s = .ok true s := by
  induction entries with
  | nil => rfl
  | cons e entries ih =>
    rw [List.forall_mem_cons] at h
    rcases h.1 with ⟨b, hget, hequal⟩
    rw [sameMembers, hget]
    exact (Run.bind_ok hequal).trans (ih h.2)

theorem equalBy_of_eq {compare : Value → Value → Run Comparison} (hook : Run.findHook a "__eq__" s = .ok none s)
    (h : compare a b s = .ok .eq s)
    : m.equalBy compare a b s = .ok true s := by
  rw [equalBy_plain hook, Run.bind_ok h]
  rfl

theorem compareIdentity_of_same (hsame : s.heap.same? depth a b = some true) (hfuel : depth ≤ m.fuel)
    : m.compareIdentity a b s = .ok .eq s := by
  rw [compareIdentity_apply, Heap.same?_mono hsame hfuel]
  rfl

section Containers

variable (hparts : ∀ part ∈ s.heap.parts a, ∀ part', s.heap.same? depth part part' = some true →
    compareValues.go m fuel part part' s = .ok .eq s)
  (hsame : s.heap.same? (depth + 1) a b = some true)

include hparts hsame

theorem compare_go_of_same_arrays {x y : ArrayRef} (ha : a = .array x) (hb : b = .array y)
    : compareValues.go m (fuel + 1) a b s = .ok .eq s := by
  rw [ha] at hparts
  rw [ha, hb] at hsame ⊢
  rw [Heap.same?] at hsame
  by_cases hxy : x = y
  . rw [compareValues.go, if_pos (beq_iff_eq.mpr hxy)]
    rfl
  . rw [if_neg (by simpa using hxy)] at hsame
    split at hsame
    . cases hsame
    . have hitems := Heap.forall₂_of_sameLists? hsame
      rw [compare_go_array hxy]
      apply compareItems_of_equal
      rw [List.forall₂_iff_zip] at hitems ⊢
      refine ⟨hitems.1, ?_⟩
      intro part part' hmem
      exact hparts part (List.of_mem_zip hmem).1 part' (hitems.2 hmem)

theorem compare_go_of_same_objects {x y : Handle} (ha : a = .object x) (hb : b = .object y)
    (hooks : ∀ part ∈ s.heap.parts a, Run.findHook part "__eq__" s = .ok none s)
    : compareValues.go m (fuel + 1) a b s = .ok .eq s := by
  rw [ha] at hparts hooks
  rw [ha, hb] at hsame ⊢
  rw [Heap.same?] at hsame
  cases hxy : x.sameInstance y with
  | true =>
    rw [compareValues.go, if_pos hxy]
    rfl
  | false =>
    rw [if_neg (by simp [hxy])] at hsame
    split at hsame
    . cases hsame
    . split at hsame
      . cases hsame
      . next hsize =>
        have hentries := Heap.forall₂_of_sameLists? hsame
        have hmembers : sameMembers (m.equalBy fun a b => comparing a b m fuel) (s.heap.members y)
            (s.heap.members x).entries s = .ok true s := by
          apply sameMembers_of_equal
          intro e he
          rcases Heap.exists_of_forall₂ hentries he with ⟨e', he', hsame⟩
          split at hsame
          . next hname =>
            have hpart : e.2 ∈ s.heap.parts (.object x) := List.mem_map_of_mem he
            refine ⟨e'.2, ?_, equalBy_of_eq (hooks e.2 hpart) (hparts e.2 hpart e'.2 hsame)⟩
            rw [beq_iff_eq.mp hname, ← Members.mem_entries_iff]
            exact he'
          . cases hsame
        rw [compare_go_object hxy (by simpa using hsize), Run.bind_ok hmembers]
        rfl

end Containers

theorem compare_go_of_same (hcompares : s.ComparesPlainly a) (hfree : s.heap.IsFloatFree a)
    (hsame : s.heap.same? depth a b = some true) (hle : depth ≤ fuel) (hfuel : depth ≤ m.fuel)
    : compareValues.go m fuel a b s = .ok .eq s := by
  induction depth generalizing a b fuel with
  | zero => cases hsame
  | succ depth ih =>
    cases fuel with
    | zero => omega
    | succ fuel =>
      have hparts : ∀ part ∈ s.heap.parts a, ∀ part', s.heap.same? depth part part' = some true →
          compareValues.go m fuel part part' s = .ok .eq s := by
        intro part hpart part' hsame
        exact ih (hcompares.part hpart) (hfree.part hpart) hsame (by omega) (by omega)
      have hidentity := compareIdentity_of_same hsame hfuel
      have hself := hsame
      unfold Heap.same? at hsame
      split at hsame
      case h_1 | h_2 => rfl
      case h_3 x y =>
        rw [beq_iff_eq.mp (Option.some.inj hsame)]
        cases y <;> rfl
      case h_4 x y =>
        have hself (i : Int) : compare i i = .eq := Std.ReflCmp.compare_self
        rw [beq_iff_eq.mp (Option.some.inj hsame)]
        show EStateM.Result.ok (Comparison.ofOrdering (compare y.toInt y.toInt)) s = _
        rw [hself]
        rfl
      case h_5 f _ => exact absurd .refl (hfree f)
      case h_6 x y =>
        show EStateM.Result.ok (Comparison.ofOrdering (x.order y)) s = _
        rw [beq_iff_eq.mp (Option.some.inj hsame)]
        rfl
      case h_7 x y =>
        have hself (text : String) : compare text text = .eq := Std.ReflCmp.compare_self
        rw [beq_iff_eq.mp (Option.some.inj hsame)]
        show EStateM.Result.ok (Comparison.ofOrdering (compare y y)) s = _
        rw [hself]
        rfl
      case h_8 x y =>
        have hcontent : s.heap.dataOf (.bytes x) = s.heap.dataOf (.bytes y) := by
          rcases Bool.or_eq_true_iff.mp (Option.some.inj hsame) with hsame | hsame
          . rw [beq_iff_eq.mp hsame]
          . exact congrArg Array.toList (beq_iff_eq.mp hsame)
        have hself (data : List UInt8) : bytesOrder data data = .eq := Std.ReflCmp.compare_self
        rw [go_bytes rfl rfl, hcontent, hself]
        rfl
      case h_9 x y => exact compare_go_of_same_arrays hparts hself rfl rfl
      case h_10 x y => exact compare_go_of_same_objects hparts hself rfl rfl (hcompares x .refl)
      case h_16 => cases hsame
      all_goals exact hidentity

end Machine

/--
Values of the same structure, as far as that shows, compare as equal and are equal for scripts: unless they
are floating point numbers or hold some, and where no `__eq__` is called, which only the value on the left
and the members of its objects are asked for.
-/
theorem same_values_are_equal {s : State} {a b : Value} {depth : Nat} (hook : Run.findHook a "__eq__" s = .ok none s)
    (hcompares : s.ComparesPlainly a) (hfree : s.heap.IsFloatFree a) (hsame : s.heap.same? depth a b = some true)
    {m : Machine} (hfuel : depth ≤ m.fuel)
    : m.compareValues a b s = .ok .eq s ∧ m.valuesEqual a b s = .ok true s := by
  have hcompare : m.compareValues a b s = .ok .eq s :=
    Machine.compare_go_of_same hcompares hfree hsame hfuel hfuel
  exact ⟨hcompare, Machine.equalBy_of_eq hook hcompare⟩

/-- Arrays with objects of their own, decimal numbers with other scales, and methods bound at different times. -/
theorem copies_are_equal
    : let s := Engine.stateAfter
        (do
          let len ← Run.newNative ⟨"len", ["value"], .builtin .len⟩
          let first ← Run.newObject [("k", ← Run.newBytes #[1, 2]), ("n", .decimal ⟨150, 2⟩)]
          let second ← Run.newObject [("k", ← Run.newBytes #[1, 2]), ("n", .decimal ⟨15, 1⟩)]
          _ ← Run.newArray #[first, .bound 0 (.str "x") len]
          _ ← Run.newArray #[second, .bound 1 (.str "x") len])
        (Engine.bareState {} .silent 0)
      let a := Value.array ⟨0⟩
      let b := Value.array ⟨1⟩
      Run.findHook a "__eq__" s = .ok none s ∧ s.ComparesPlainly a ∧ s.heap.IsFloatFree a ∧
        s.heap.same? 3 a b = some true ∧ 3 ≤ (Machine.idle 3).fuel ∧
        ((Machine.idle 3).compareValues a b s = .ok .eq s ∧ (Machine.idle 3).valuesEqual a b s = .ok true s) := by
  intro s a b
  let object := Value.object (.ofInstance ⟨0⟩)
  have hobject : s.heap.parts object = [.bytes ⟨0⟩, .decimal ⟨150, 2⟩] := rfl
  have harray : s.heap.parts a = [object, .bound 0 (.str "x") (.native ⟨0⟩)] := rfl
  have hfree : s.heap.IsFloatFree a := by
    refine .intro nofun ?_
    rw [harray, List.forall_mem_cons, List.forall_mem_singleton]
    refine ⟨.intro nofun ?_, .intro nofun (List.forall_mem_nil _)⟩
    rw [hobject, List.forall_mem_cons, List.forall_mem_singleton]
    exact ⟨.intro nofun (List.forall_mem_nil _), .intro nofun (List.forall_mem_nil _)⟩
  have hcompares : s.ComparesPlainly a := by
    refine .intro nofun ?_
    rw [harray, List.forall_mem_cons, List.forall_mem_singleton]
    refine ⟨.intro ?_ ?_, .intro nofun (List.forall_mem_nil _)⟩
    . intro _ _
      rw [hobject, List.forall_mem_cons, List.forall_mem_singleton]
      exact ⟨rfl, rfl⟩
    . rw [hobject, List.forall_mem_cons, List.forall_mem_singleton]
      exact ⟨.intro nofun (List.forall_mem_nil _), .intro nofun (List.forall_mem_nil _)⟩
  have hsame : s.heap.same? 3 a b = some true := by decide +kernel
  have hfuel : 3 ≤ (Machine.idle 3).fuel := Nat.le_refl 3
  exact ⟨rfl, hcompares, hfree, hsame, hfuel, same_values_are_equal rfl hcompares hfree hsame hfuel⟩

end ScriptEngine
