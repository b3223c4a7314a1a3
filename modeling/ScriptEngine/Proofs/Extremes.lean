import ScriptEngine.Library.Routines
import ScriptEngine.Proofs.Endings

/-!
This module contains what the least and the greatest of several values are. One pass over the values with
a strict comparison finds the first of those that none of the others goes before, since the comparison of
data is an order.
-/

namespace ScriptEngine

section Lists

variable {α : Type} {P : α → Prop} {cmp : α → α → Option Ordering}

/-- The first element of a list that has a property. -/
def IsFirst (holds : α → Prop) (a : α) (as : List α) : Prop :=
  ∃ before after, as = before ++ a :: after ∧ holds a ∧ ∀ b ∈ before, ¬holds b

theorem IsFirst.congr {holds holds' : α → Prop} {a : α} {as : List α} (h : ∀ b ∈ as, holds b ↔ holds' b)
    (hfirst : IsFirst holds a as)
    : IsFirst holds' a as := by
  rcases hfirst with ⟨before, after, rfl, ha, hbefore⟩
  refine ⟨before, after, rfl, (h a (by simp)).mp ha, ?_⟩
  intro b hb hholds
  exact hbefore b hb ((h b (List.mem_append_left _ hb)).mpr hholds)

/-- Whether an element is at most as great as each of a list. -/
def IsLeast (cmp : α → α → Option Ordering) (as : List α) (a : α) : Prop :=
  ∀ b ∈ as, cmp a b = some .lt ∨ cmp a b = some .eq

/-- One pass over a list that keeps an element until a lesser one comes. -/
def scanLeast (cmp : α → α → Option Ordering) (best : α) (as : List α) : α :=
  as.foldl (fun best a => if cmp a best = some .lt then a else best) best

theorem OrdersOn.flip (h : OrdersOn P cmp) : OrdersOn P fun a b => cmp b a where
  refl ha := h.refl ha
  swap ha hb := h.swap hb ha
  congr ha hb hc hab := by
    rw [h.congr_right hb ha hc hab]
  trans ha hb hc hab hbc := h.trans hc hb ha hbc hab

/-- Where the next element is less than the best so far, it is less than all elements so far. -/
theorem isFirst_of_lt (h : OrdersOn P cmp) {as : List α} {best a : α} (has : ∀ b ∈ as, P b) (hbest : P best)
    (ha : P a) (hleast : IsLeast cmp as best) (hlt : cmp a best = some .lt)
    : IsFirst (IsLeast cmp (as ++ [a])) a (as ++ [a]) := by
  have hbelow : ∀ b ∈ as, cmp a b = some .lt := by
    intro b hb
    rcases hleast b hb with hless | hequal
    . exact h.trans ha hbest (has b hb) hlt hless
    . rw [← h.congr_right hbest (has b hb) ha hequal]
      exact hlt
  refine ⟨as, [], rfl, ?_, ?_⟩
  . intro b hb
    rcases List.mem_append.mp hb with hb | hb
    . exact .inl (hbelow b hb)
    . rw [List.mem_singleton.mp hb]
      exact .inr (h.refl ha)
  . intro b hb hleast
    have hgt := (h.lt_iff_gt ha (has b hb)).mp (hbelow b hb)
    rcases hleast a (by simp) with hless | hequal
    . rw [hgt] at hless
      cases hless
    . rw [hgt] at hequal
      cases hequal

/-- Where the next element is not less than the best so far, that one stays the first. -/
theorem isFirst_of_not_lt (h : OrdersOn P cmp) {as : List α} {best a : α} (hbest : P best) (ha : P a)
    (hfirst : IsFirst (IsLeast cmp as) best as) (hrelated : cmp a best ≠ none) (hlt : cmp a best ≠ some .lt)
    : IsFirst (IsLeast cmp (as ++ [a])) best (as ++ [a]) := by
  rcases hfirst with ⟨before, after, rfl, hleast, hbefore⟩
  refine ⟨before, after ++ [a], by simp, ?_, ?_⟩
  . intro b hb
    rcases List.mem_append.mp hb with hb | hb
    . exact hleast b hb
    . rw [List.mem_singleton.mp hb, h.swap ha hbest]
      rcases hcmp : cmp a best with _ | _ | _ | _
      . exact absurd hcmp hrelated
      . exact absurd hcmp hlt
      . exact .inr rfl
      . exact .inl rfl
  . intro b hb hholds
    exact hbefore b hb fun c hc => hholds c (List.mem_append_left _ hc)

theorem isFirst_step (h : OrdersOn P cmp) {as : List α} {best a : α} (has : ∀ b ∈ as, P b) (ha : P a)
    (hrelated : ∀ b ∈ as, cmp b a ≠ none) (hfirst : IsFirst (IsLeast cmp as) best as)
    : IsFirst (IsLeast cmp (as ++ [a])) (if cmp a best = some .lt then a else best) (as ++ [a]) := by
  have hmem : best ∈ as := by
    rcases hfirst with ⟨before, after, rfl, _⟩
    simp
  split
  . next hlt =>
    rcases hfirst with ⟨_, _, _, hleast, _⟩
    exact isFirst_of_lt h has (has best hmem) ha hleast hlt
  . next hlt =>
    refine isFirst_of_not_lt h (has best hmem) ha hfirst ?_ hlt
    rw [h.swap (has best hmem) ha]
    simpa using hrelated best hmem

/-- The pass keeps, at every element, the first of the least elements so far. -/
theorem scanLeast_isFirst (h : OrdersOn P cmp) {scanned as : List α} {best : α} (hall : ∀ a ∈ scanned ++ as, P a)
    (hrelated : (scanned ++ as).Pairwise fun a b => cmp a b ≠ none)
    (hfirst : IsFirst (IsLeast cmp scanned) best scanned)
    : IsFirst (IsLeast cmp (scanned ++ as)) (scanLeast cmp best as) (scanned ++ as) := by
  induction as generalizing scanned best with
  | nil =>
    rw [List.append_nil]
    exact hfirst
  | cons a as ih =>
    have hbefore : ∀ b ∈ scanned, cmp b a ≠ none := by
      intro b hb
      exact (List.pairwise_append.mp hrelated).2.2 b hb a List.mem_cons_self
    have hstep := isFirst_step h (fun b hb => hall b (List.mem_append_left _ hb)) (hall a (by simp)) hbefore hfirst
    rw [List.append_cons] at hall hrelated ⊢
    exact ih hall hrelated hstep

/-- The least element that a pass over a list finds is the first of the least ones. -/
theorem isFirst_scanLeast (h : OrdersOn P cmp) {as : List α} {a : α} (hall : ∀ b ∈ a :: as, P b)
    (hrelated : (a :: as).Pairwise fun a b => cmp a b ≠ none)
    : IsFirst (IsLeast cmp (a :: as)) (scanLeast cmp a as) (a :: as) := by
  rw [← List.singleton_append] at hall hrelated ⊢
  have hself : IsFirst (IsLeast cmp [a]) a [a] := by
    refine ⟨[], [], rfl, ?_, by simp⟩
    intro b hb
    rw [List.mem_singleton.mp hb]
    exact .inr (h.refl (hall a (by simp)))
  exact scanLeast_isFirst h hall hrelated hself

end Lists

/--
Truth values, numbers other than floating point ones, texts, bytes, and arrays of such. An array that
holds itself is none of them.
-/
inductive Heap.Sortable (h : Heap) : Value → Prop where
  | bool (b : Bool) : h.Sortable (.bool b)
  | int (i : Int64) : h.Sortable (.int i)
  | decimal (d : Decimal) : h.Sortable (.decimal d)
  | str (text : String) : h.Sortable (.str text)
  | bytes (ref : BytesRef) : h.Sortable (.bytes ref)
  | array (ref : ArrayRef) (hitems : ∀ item ∈ (h.items ref).toList, h.Sortable item) : h.Sortable (.array ref)

namespace Heap.Sortable

variable {h : Heap} {value : Value} {depth : Nat}

theorem parts (hvalue : h.Sortable value) : ∀ part ∈ h.parts value, h.Sortable part := by
  cases hvalue with
  | array _ hitems => exact hitems
  | _ => exact List.forall_mem_nil _

theorem kind_ne_other (hvalue : h.Sortable value) : value.kind ≠ .other := by
  cases hvalue <;> nofun

theorem kind_ne_object (hvalue : h.Sortable value) : value.kind ≠ .object := by
  cases hvalue <;> nofun

theorem exists_nests (hvalue : h.Sortable value) : ∃ depth, h.Nests depth value := by
  induction hvalue with
  | array ref hitems ih =>
    rcases h.exists_nests_all (h.items ref).toList with ⟨depth, hdepth⟩
    exact ⟨depth + 1, fun item hitem => hdepth item hitem (ih item hitem)⟩
  | _ => exact ⟨1, .of_parts_nil rfl⟩

theorem dataWithin (hvalue : h.Sortable value) (hnests : h.Nests depth value) : h.DataWithin depth value := by
  induction depth generalizing value with
  | zero => exact hnests.elim
  | succ depth ih => exact ⟨hvalue.kind_ne_other, fun part hpart => ih (hvalue.parts part hpart) (hnests part hpart)⟩

end Heap.Sortable

namespace State

/-- With enough steps a comparison of two values has this result, and nothing changes. -/
def Compares (s : State) (a b : Value) (c : Comparison) : Prop :=
  ∃ enough, ∀ m : Machine, enough ≤ m.fuel → m.compareValues a b s = .ok c s

/-- Values are passed to a function as its arguments, or as the items of an array that is its argument. -/
def Passes (s : State) (values args : List Value) : Prop :=
  (args = values ∧ ∀ ref, values ≠ [.array ref]) ∨ ∃ ref, args = [.array ref] ∧ (s.heap.items ref).toList = values

theorem compares_iff {s : State} {a b : Value} {c c' : Comparison} {depth : Nat}
    (h : ∀ m : Machine, depth ≤ m.fuel → m.compareValues a b s = .ok c s)
    : s.Compares a b c' ↔ c = c' := by
  constructor
  . rintro ⟨enough, h'⟩
    have hsame := (h (.idle (max depth enough)) (Nat.le_max_left ..)).symm.trans
      (h' (.idle (max depth enough)) (Nat.le_max_right ..))
    injection hsame
  . rintro rfl
    exact ⟨depth, h⟩

end State

theorem Comparison.ofOrdering?_eq_ofOrdering {o : Option Ordering} {r : Ordering}
    : ofOrdering? o = ofOrdering r ↔ o = some r := by
  rcases o with _ | _ | _ | _ <;> cases r <;> decide

namespace Machine

variable {m : Machine} {s : State} {a b : Value} {depth fuel : Nat}

/-- No hook is asked for in the comparison of values without objects. -/
theorem go_sortable (ha : s.heap.Sortable a) (hb : s.heap.Sortable b) (hdepth : s.heap.Nests depth a)
    (hdepth' : s.heap.Nests depth b) (hfuel : depth ≤ fuel)
    : compareValues.go m fuel a b s = .ok (.ofOrdering? (s.heap.dataOrder depth a b)) s := by
  induction depth generalizing fuel a b with
  | zero => exact hdepth.elim
  | succ depth ih =>
    cases fuel with
    | zero => omega
    | succ fuel =>
      apply go_data (ha.dataWithin hdepth) (hb.dataWithin hdepth')
      . intro x hx y hy
        exact ih (ha.parts x hx) (hb.parts y hy) (hdepth x hx) (hdepth' y hy) (by omega)
      . intro hobject
        exact absurd hobject ha.kind_ne_object

variable {r : Ordering} (hdepth : ∀ value, (∃ d, s.heap.Nests d value) → s.heap.Nests depth value)
  (ha : s.heap.Sortable a) (hb : s.heap.Sortable b)

include hdepth ha hb

theorem compareValues_sortable (hfuel : depth ≤ m.fuel)
    : m.compareValues a b s = .ok (.ofOrdering? (s.heap.dataOrder depth a b)) s :=
  go_sortable ha hb (hdepth a ha.exists_nests) (hdepth b hb.exists_nests) hfuel

theorem compares_sortable_iff : s.Compares a b (.ofOrdering r) ↔ s.heap.dataOrder depth a b = some r := by
  rw [State.compares_iff fun m => compareValues_sortable hdepth ha hb, Comparison.ofOrdering?_eq_ofOrdering]

end Machine

namespace Library

variable {m : Machine} {s : State} {wanted : Comparison} {best : Value} {items args : List Value}

theorem pick_of_passes (hpasses : s.Passes (best :: items) args)
    : pick m wanted args s = pick.go m wanted best items s := by
  rcases hpasses with ⟨rfl, hsingle⟩ | ⟨ref, rfl, hitems⟩
  . cases best with
    | array ref =>
      cases items with
      | nil => exact absurd rfl (hsingle ref)
      | cons => rfl
    | _ => rfl
  . rw [pick, Run.bind_ok (rfl : Run.getHeap s = .ok s.heap s), pure_bind, hitems]

theorem pick_go_apply {cmp : Value → Value → Option Ordering} {all : List Value}
    (h : ∀ a ∈ all, ∀ b ∈ all, ∃ c, m.compareValues a b s = .ok c s ∧ (c = wanted ↔ cmp a b = some .lt))
    (hbest : best ∈ all) (hitems : items ⊆ all)
    : pick.go m wanted best items s = .ok (scanLeast cmp best items) s := by
  induction items generalizing best with
  | nil => rfl
  | cons a items ih =>
    rw [List.cons_subset] at hitems
    rcases h a hitems.1 best hbest with ⟨c, hc, hwanted⟩
    rw [pick.go, Run.bind_ok hc, scanLeast, List.foldl_cons]
    by_cases hlt : cmp a best = some .lt
    . rw [if_pos (beq_iff_eq.mpr (hwanted.mpr hlt)), if_pos hlt]
      exact ih hitems.1 hitems.2
    . have hne : ¬(c == wanted) = true := fun heq => hlt (hwanted.mp (beq_iff_eq.mp heq))
      rw [if_neg hne, if_neg hlt]
      exact ih hbest hitems.2

theorem pick_apply {cmp : Value → Value → Option Ordering} (hpasses : s.Passes (best :: items) args)
    (h : ∀ a ∈ best :: items, ∀ b ∈ best :: items,
      ∃ c, m.compareValues a b s = .ok c s ∧ (c = wanted ↔ cmp a b = some .lt))
    : pick m wanted args s = .ok (scanLeast cmp best items) s :=
  (pick_of_passes hpasses).trans (pick_go_apply h List.mem_cons_self (List.subset_cons_self best items))

end Library

/--
The least and the greatest of values that can be ordered, where every two of them have an order, are the
first ones that are not above and not below any other. It makes no difference whether the values are
passed one by one, unless that is a single array, or as the items of an array.
-/
theorem extremes_are_first {s : State} {items : List Value} (hne : items ≠ [])
    (hdata : ∀ a ∈ items, s.heap.Sortable a)
    (hrelated : items.Pairwise fun a b => ∃ o : Ordering, s.Compares a b (.ofOrdering o))
    : ∃ least greatest enough,
        IsFirst (fun a => ∀ b ∈ items, s.Compares a b .lt ∨ s.Compares a b .eq) least items ∧
        IsFirst (fun a => ∀ b ∈ items, s.Compares a b .gt ∨ s.Compares a b .eq) greatest items ∧
        ∀ m : Machine, enough ≤ m.fuel → ∀ args, s.Passes items args →
          Library.runBuiltin m .min args s = .ok least s ∧ Library.runBuiltin m .max args s = .ok greatest s := by
  rcases s.heap.exists_nests with ⟨depth, hdepth⟩
  let order := s.heap.dataOrder depth
  have horder : OrdersOn (s.heap.DataWithin depth) order := s.heap.dataOrder_orders depth
  have hwithin : ∀ a ∈ items, s.heap.DataWithin depth a := by
    intro a ha
    exact (hdata a ha).dataWithin (hdepth a (hdata a ha).exists_nests)
  have hiff (r : Ordering) : ∀ a ∈ items, ∀ b ∈ items, s.Compares a b (.ofOrdering r) ↔ order a b = some r := by
    intro a ha b hb
    exact Machine.compares_sortable_iff hdepth (hdata a ha) (hdata b hb)
  have hlt : items.Pairwise fun a b => order a b ≠ none := by
    apply hrelated.imp_of_mem
    rintro a b ha hb ⟨o, ho⟩
    rw [(hiff o a ha b hb).mp ho]
    nofun
  have hgt : items.Pairwise fun a b => order b a ≠ none := by
    apply hlt.imp_of_mem
    intro a b ha hb hab
    rw [horder.swap (hwithin a ha) (hwithin b hb)]
    simpa using hab
  cases items with
  | nil => exact absurd rfl hne
  | cons best rest =>
    refine ⟨scanLeast order best rest, scanLeast (fun a b => order b a) best rest, depth, ?_, ?_, ?_⟩
    . apply (isFirst_scanLeast horder hwithin hlt).congr
      intro a ha
      refine forall₂_congr fun b hb => ?_
      exact or_congr (hiff .lt a ha b hb).symm (hiff .eq a ha b hb).symm
    . apply (isFirst_scanLeast horder.flip hwithin hgt).congr
      intro a ha
      refine forall₂_congr fun b hb => ?_
      rw [horder.lt_iff_gt (hwithin b hb) (hwithin a ha), horder.eq_comm (hwithin b hb) (hwithin a ha)]
      exact or_congr (hiff .gt a ha b hb).symm (hiff .eq a ha b hb).symm
    . intro m hfuel args hpasses
      constructor
      . apply Library.pick_apply hpasses
        intro a ha b hb
        have hcompare := Machine.compareValues_sortable hdepth (hdata a ha) (hdata b hb) hfuel
        exact ⟨_, hcompare, Comparison.ofOrdering?_eq_ofOrdering (r := .lt)⟩
      . apply Library.pick_apply hpasses
        intro a ha b hb
        have hcompare := Machine.compareValues_sortable hdepth (hdata a ha) (hdata b hb) hfuel
        refine ⟨_, hcompare, ?_⟩
        rw [horder.lt_iff_gt (hwithin b hb) (hwithin a ha)]
        exact Comparison.ofOrdering?_eq_ofOrdering (r := .gt)

/-- Of two equal arrays, with a word and with a decimal number, the first is the least. -/
theorem first_of_equal_items_is_least
    : let s := Engine.stateAfter
        (do
          _ ← Run.newArray #[.int 3]
          _ ← Run.newArray #[.int 1]
          _ ← Run.newArray #[.decimal ⟨10, 1⟩])
        (Engine.bareState {} .silent 0)
      let items := [Value.array ⟨0⟩, .array ⟨1⟩, .array ⟨2⟩]
      items ≠ [] ∧ (∀ a ∈ items, s.heap.Sortable a) ∧
        (items.Pairwise fun a b => ∃ o : Ordering, s.Compares a b (.ofOrdering o)) ∧
        ∃ enough, ∀ m : Machine, enough ≤ m.fuel → ∀ args, s.Passes items args →
          Library.runBuiltin m .min args s = .ok (.array ⟨1⟩) s ∧
          Library.runBuiltin m .max args s = .ok (.array ⟨0⟩) s := by
  intro s items
  have harray {ref : ArrayRef} {item : Value} (hitems : (s.heap.items ref).toList = [item])
      (hitem : s.heap.Sortable item)
      : s.heap.Sortable (.array ref) := by
    apply Heap.Sortable.array
    rw [hitems, List.forall_mem_singleton]
    exact hitem
  have hdata : ∀ a ∈ items, s.heap.Sortable a := by
    rw [List.forall_mem_cons, List.forall_mem_cons, List.forall_mem_singleton]
    exact ⟨harray rfl (.int 3), harray rfl (.int 1), harray rfl (.decimal ⟨10, 1⟩)⟩
  have hcompares {a b : Value} (o : Ordering)
      (h : ∀ m fuel, Machine.compareValues.go m (fuel + 3) a b s = .ok (.ofOrdering o) s)
      : ∃ o : Ordering, s.Compares a b (.ofOrdering o) := by
    refine ⟨o, 3, ?_⟩
    intro m hfuel
    rcases Nat.exists_eq_add_of_le' hfuel with ⟨rest, hrest⟩
    rw [Machine.compareValues, hrest]
    exact h m rest
  have hrelated : items.Pairwise fun a b => ∃ o : Ordering, s.Compares a b (.ofOrdering o) := by
    rw [List.pairwise_cons, List.pairwise_cons, List.forall_mem_cons, List.forall_mem_singleton,
      List.forall_mem_singleton]
    exact ⟨⟨hcompares .gt fun _ _ => rfl, hcompares .gt fun _ _ => rfl⟩, hcompares .eq fun _ _ => rfl,
      List.pairwise_singleton ..⟩
  have hne : items ≠ [] := List.cons_ne_nil _ _
  rcases extremes_are_first hne hdata hrelated with ⟨least, greatest, enough, -, -, h⟩
  have hmany : ∀ ref, items ≠ [.array ref] := by
    intro ref hsingle
    cases congrArg List.length hsingle
  -- Which ones they are shows on any machine with enough steps.
  have hfound := h (.idle (enough + 3)) (Nat.le_add_right ..) items (.inl ⟨rfl, hmany⟩)
  have hleast : Library.runBuiltin (.idle (enough + 3)) .min items s = .ok (.array ⟨1⟩) s := rfl
  have hgreatest : Library.runBuiltin (.idle (enough + 3)) .max items s = .ok (.array ⟨0⟩) s := rfl
  rw [hleast, hgreatest] at hfound
  injection hfound.1 with hleast
  injection hfound.2 with hgreatest
  refine ⟨hne, hdata, hrelated, enough, ?_⟩
  rw [hleast, hgreatest]
  exact h

end ScriptEngine
