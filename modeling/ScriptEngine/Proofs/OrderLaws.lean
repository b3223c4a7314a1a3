import Mathlib.Data.List.Perm.Subperm
import ScriptEngine.Proofs.Members

/-!
This module contains the laws of three way comparisons that may find two values unrelated, and how
the comparison of items and of members inherits them from that of the values in them.
-/

namespace ScriptEngine

/--
On the values with a property, a comparison is a partial order in which equal values cannot be told
apart.
-/
structure OrdersOn {α : Type} (P : α → Prop) (cmp : α → α → Option Ordering) : Prop where
  refl {a : α} (ha : P a) : cmp a a = some .eq
  swap {a b : α} (ha : P a) (hb : P b) : cmp b a = (cmp a b).map Ordering.swap
  congr {a b c : α} (ha : P a) (hb : P b) (hc : P c) (h : cmp a b = some .eq) : cmp a c = cmp b c
  trans {a b c : α} (ha : P a) (hb : P b) (hc : P c) (hab : cmp a b = some .lt) (hbc : cmp b c = some .lt)
    : cmp a c = some .lt

namespace OrdersOn

variable {α β : Type} {P : α → Prop} {Q : β → Prop} {cmp : α → α → Option Ordering}
  {cmp' : β → β → Option Ordering}

theorem eq_comm (h : OrdersOn P cmp) {a b : α} (ha : P a) (hb : P b)
    : cmp a b = some .eq ↔ cmp b a = some .eq := by
  rw [h.swap ha hb]
  rcases cmp a b with _ | _ | _ | _ <;> simp

theorem lt_iff_gt (h : OrdersOn P cmp) {a b : α} (ha : P a) (hb : P b)
    : cmp a b = some .lt ↔ cmp b a = some .gt := by
  rw [h.swap ha hb]
  rcases cmp a b with _ | _ | _ | _ <;> simp

theorem congr_right (h : OrdersOn P cmp) {a b c : α} (ha : P a) (hb : P b) (hc : P c)
    (hab : cmp a b = some .eq)
    : cmp c a = cmp c b := by
  rw [h.swap ha hc, h.swap hb hc, h.congr ha hb hc hab]

theorem of_empty (h : ∀ a, ¬P a) : OrdersOn P cmp where
  refl ha := absurd ha (h _)
  swap ha := absurd ha (h _)
  congr ha := absurd ha (h _)
  trans ha := absurd ha (h _)

theorem of_transCmp (cmp : β → β → Ordering) [Std.TransCmp cmp] (f : α → β)
    : OrdersOn P fun a b => some (cmp (f a) (f b)) where
  refl _ := congrArg some Std.ReflCmp.compare_self
  swap _ _ := by rw [Option.map_some, ← Std.OrientedCmp.eq_swap]
  congr _ _ _ h := congrArg some (Std.TransCmp.congr_left (Option.some.inj h))
  trans _ _ _ hab hbc := congrArg some (Std.TransCmp.lt_trans (Option.some.inj hab) (Option.some.inj hbc))

/-- An equivalence is such a comparison, without an order. -/
theorem of_equivalence {same : α → α → Bool} (hrefl : ∀ a, P a → same a a)
    (hsymm : ∀ a b, P a → P b → same a b → same b a)
    (htrans : ∀ a b c, P a → P b → P c → same a b → same b c → same a c)
    : OrdersOn P fun a b => if same a b then some .eq else none where
  refl ha := by rw [if_pos (hrefl _ ha)]
  swap {a b} ha hb := by
    have hiff : same a b = true ↔ same b a = true := ⟨hsymm a b ha hb, hsymm b a hb ha⟩
    cases hab : same a b <;> simp_all
  congr {a b c} ha hb hc h := by
    have hab : same a b = true := by
      cases hab : same a b <;> simp [hab] at h ⊢
    have hiff : same a c = true ↔ same b c = true :=
      ⟨htrans b a c hb ha hc (hsymm a b ha hb hab), htrans a b c ha hb hc hab⟩
    cases hac : same a c <;> simp_all
  trans {a b c} _ _ _ hab := by
    cases h : same a b <;> simp [h] at hab

theorem comap (h : OrdersOn Q cmp') (f : α → β) (hf : ∀ a, P a → Q (f a))
    (hcmp : ∀ a b, P a → P b → cmp a b = cmp' (f a) (f b))
    : OrdersOn P cmp where
  refl ha := by
    rw [hcmp _ _ ha ha]
    exact h.refl (hf _ ha)
  swap ha hb := by
    rw [hcmp _ _ ha hb, hcmp _ _ hb ha]
    exact h.swap (hf _ ha) (hf _ hb)
  congr ha hb hc hab := by
    rw [hcmp _ _ ha hb] at hab
    rw [hcmp _ _ ha hc, hcmp _ _ hb hc]
    exact h.congr (hf _ ha) (hf _ hb) (hf _ hc) hab
  trans ha hb hc hab hbc := by
    rw [hcmp _ _ ha hb] at hab
    rw [hcmp _ _ hb hc] at hbc
    rw [hcmp _ _ ha hc]
    exact h.trans (hf _ ha) (hf _ hb) (hf _ hc) hab hbc

/-- Orders of the values of every kind make one of all values, if no two kinds are related. -/
theorem of_kinds {κ : Type} (kind : α → κ) (h : ∀ k, OrdersOn (fun a => P a ∧ kind a = k) cmp)
    (hlike : ∀ a b, P a → P b → ∀ o, cmp a b = some o → kind a = kind b)
    : OrdersOn P cmp := by
  have hunlike : ∀ a b, P a → P b → kind a ≠ kind b → cmp a b = none := by
    intro a b ha hb hkind
    rw [Option.eq_none_iff_forall_ne_some]
    intro o hab
    exact hkind (hlike a b ha hb o hab)
  constructor
  case refl =>
    intro a ha
    exact (h _).refl ⟨ha, rfl⟩
  case swap =>
    intro a b ha hb
    by_cases hkind : kind a = kind b
    . exact (h _).swap ⟨ha, hkind⟩ ⟨hb, rfl⟩
    . rw [hunlike a b ha hb hkind, hunlike b a hb ha (Ne.symm hkind)]
      rfl
  case congr =>
    intro a b c ha hb hc hab
    have hkind : kind a = kind b := hlike a b ha hb _ hab
    by_cases hother : kind b = kind c
    . exact (h _).congr ⟨ha, hkind.trans hother⟩ ⟨hb, hother⟩ ⟨hc, rfl⟩ hab
    . rw [hunlike a c ha hc (hkind ▸ hother), hunlike b c hb hc hother]
  case trans =>
    intro a b c ha hb hc hab hbc
    have hkind : kind a = kind b := hlike a b ha hb _ hab
    have hother : kind b = kind c := hlike b c hb hc _ hbc
    exact (h _).trans ⟨ha, hkind.trans hother⟩ ⟨hb, hother⟩ ⟨hc, rfl⟩ hab hbc

end OrdersOn

section Items

variable {α : Type} {P : α → Prop} {cmp : α → α → Option Ordering}

/-- Compares lists by the first items that are not equal, then by their lengths. -/
def itemsOrder (cmp : α → α → Option Ordering) : List α → List α → Option Ordering
  | [], [] => some .eq
  | [], _ :: _ => some .lt
  | _ :: _, [] => some .gt
  | a :: as, b :: bs => if cmp a b = some .eq then itemsOrder cmp as bs else cmp a b

theorem itemsOrder_cons_eq {a b : α} {as bs : List α}
    : itemsOrder cmp (a :: as) (b :: bs) = some .eq ↔ cmp a b = some .eq ∧ itemsOrder cmp as bs = some .eq := by
  rw [itemsOrder]
  split <;> simp_all

theorem itemsOrder_cons_lt {a b : α} {as bs : List α}
    : itemsOrder cmp (a :: as) (b :: bs) = some .lt ↔
        cmp a b = some .lt ∨ cmp a b = some .eq ∧ itemsOrder cmp as bs = some .lt := by
  rw [itemsOrder]
  split <;> simp_all

theorem OrdersOn.items (h : OrdersOn P cmp) : OrdersOn (fun as => ∀ a ∈ as, P a) (itemsOrder cmp) := by
  constructor
  case refl =>
    intro as has
    induction as with
    | nil => rfl
    | cons a as ih =>
      rw [List.forall_mem_cons] at has
      rw [itemsOrder_cons_eq]
      exact ⟨h.refl has.1, ih has.2⟩
  case swap =>
    intro as bs has hbs
    induction as generalizing bs with
    | nil => cases bs <;> rfl
    | cons a as ih =>
      cases bs with
      | nil => rfl
      | cons b bs =>
        rw [List.forall_mem_cons] at has hbs
        have hab := h.eq_comm has.1 hbs.1
        rw [itemsOrder, itemsOrder]
        split
        . next hba => rw [if_pos (hab.mpr hba), ih has.2 hbs.2]
        . next hba => rw [if_neg ((not_congr hab).mpr hba), h.swap has.1 hbs.1]
  case congr =>
    intro as bs cs has hbs hcs hab
    induction as generalizing bs cs with
    | nil =>
      cases bs with
      | nil => rfl
      | cons => simp [itemsOrder] at hab
    | cons a as ih =>
      cases bs with
      | nil => simp [itemsOrder] at hab
      | cons b bs =>
        rw [itemsOrder_cons_eq] at hab
        cases cs with
        | nil => rfl
        | cons c cs =>
          rw [List.forall_mem_cons] at has hbs hcs
          rw [itemsOrder, itemsOrder, h.congr has.1 hbs.1 hcs.1 hab.1, ih has.2 hbs.2 hcs.2 hab.2]
  case trans =>
    intro as bs cs has hbs hcs hab hbc
    induction as generalizing bs cs with
    | nil =>
      cases cs with
      | nil => cases bs <;> simp [itemsOrder] at hab hbc
      | cons => rfl
    | cons a as ih =>
      cases bs with
      | nil => simp [itemsOrder] at hab
      | cons b bs =>
        cases cs with
        | nil => simp [itemsOrder] at hbc
        | cons c cs =>
          rw [List.forall_mem_cons] at has hbs hcs
          rw [itemsOrder_cons_lt] at hab hbc ⊢
          -- Where the first items are equal on one side, the other side decides for both.
          rcases hab with hab | ⟨hab, hrest⟩
          . rcases hbc with hbc | ⟨hbc, _⟩
            . exact .inl (h.trans has.1 hbs.1 hcs.1 hab hbc)
            . rw [h.congr_right hbs.1 hcs.1 has.1 hbc] at hab
              exact .inl hab
          . rw [h.congr has.1 hbs.1 hcs.1 hab]
            rcases hbc with hbc | ⟨hbc, hrest'⟩
            . exact .inl hbc
            . exact .inr ⟨hbc, ih has.2 hbs.2 hcs.2 hrest hrest'⟩

end Items

namespace Members

variable {P : Value → Prop} {cmp : Value → Value → Option Ordering}

theorem mem_entries_iff (m : Members) {name : String} {value : Value}
    : (name, value) ∈ m.entries ↔ m.get? name = some value := by
  constructor
  . intro hmem
    rw [m.sound.get?_eq]
    apply Table.get?_of_mem
    . exact m.sound.keys_nodup
    . exact hmem
  . intro hget
    cases hplace : m.index.get? name with
    | none => simp [MemberTable.get?, hplace] at hget
    | some place =>
      rcases m.sound.getElem?_of_place hplace with ⟨found, hfound⟩
      have hvalue : found = value := by simpa [MemberTable.get?, hplace, hfound] using hget
      rw [hvalue] at hfound
      exact List.mem_of_getElem? hfound

/-- Whether two tables have as many members, and every one on the left has an equal one on the right. -/
def agree (cmp : Value → Value → Option Ordering) (xs ys : Members) : Bool :=
  xs.size == ys.size && xs.entries.all fun e => (ys.get? e.1).any fun y => cmp e.2 y == some .eq

theorem agree_iff {xs ys : Members}
    : xs.agree cmp ys ↔
        xs.size = ys.size ∧
        ∀ name x, xs.get? name = some x → ∃ y, ys.get? name = some y ∧ cmp x y = some .eq := by
  simp only [agree, Bool.and_eq_true, beq_iff_eq, List.all_eq_true, Prod.forall, mem_entries_iff,
    Option.any_eq_true]

theorem mem_keys_iff (m : Members) {name : String} : name ∈ m.keys ↔ ∃ value, m.get? name = some value := by
  simp only [MemberTable.keys, List.mem_map, Prod.exists, mem_entries_iff]
  constructor
  . rintro ⟨_, value, hvalue, rfl⟩
    exact ⟨value, hvalue⟩
  . rintro ⟨value, hvalue⟩
    exact ⟨name, value, hvalue, rfl⟩

theorem keys_subset {xs ys : Members} (hsize : xs.size = ys.size) (h : xs.keys ⊆ ys.keys) : ys.keys ⊆ xs.keys := by
  have hsub : xs.keys.Subperm ys.keys := xs.sound.keys_nodup.subperm h
  have hlength : ys.keys.length ≤ xs.keys.length := by
    unfold MemberTable.keys
    rw [List.length_map, List.length_map]
    exact Nat.le_of_eq hsize.symm
  exact (hsub.perm_of_length_le hlength).symm.subset

theorem agree_symm (h : OrdersOn P cmp) {xs ys : Members} (hxs : ∀ name x, xs.get? name = some x → P x)
    (hys : ∀ name y, ys.get? name = some y → P y) (hagree : xs.agree cmp ys)
    : ys.agree cmp xs := by
  rw [agree_iff] at hagree ⊢
  rcases hagree with ⟨hsize, hmembers⟩
  have hkeys : xs.keys ⊆ ys.keys := by
    intro name hname
    rcases xs.mem_keys_iff.mp hname with ⟨x, hx⟩
    rcases hmembers name x hx with ⟨y, hy, _⟩
    exact ys.mem_keys_iff.mpr ⟨y, hy⟩
  refine ⟨hsize.symm, ?_⟩
  intro name y hy
  -- Every name on the right stands on the left as well, for there are as many.
  rcases xs.mem_keys_iff.mp (keys_subset hsize hkeys (ys.mem_keys_iff.mpr ⟨y, hy⟩)) with ⟨x, hx⟩
  rcases hmembers name x hx with ⟨y', hy', hxy⟩
  rw [hy] at hy'
  cases hy'
  exact ⟨x, hx, (h.eq_comm (hxs name x hx) (hys name y hy)).mp hxy⟩

/-- Tables are equal or unrelated. -/
def order (cmp : Value → Value → Option Ordering) (xs ys : Members) : Option Ordering :=
  if xs.agree cmp ys then some .eq else none

end Members

theorem OrdersOn.members {P : Value → Prop} {cmp : Value → Value → Option Ordering} (h : OrdersOn P cmp)
    : OrdersOn (fun m : Members => ∀ name value, m.get? name = some value → P value) (Members.order cmp) := by
  apply of_equivalence
  case hrefl =>
    intro xs hxs
    rw [Members.agree_iff]
    refine ⟨rfl, ?_⟩
    intro name x hx
    exact ⟨x, hx, h.refl (hxs name x hx)⟩
  case hsymm =>
    intro xs ys hxs hys
    exact Members.agree_symm h hxs hys
  case htrans =>
    intro xs ys zs hxs hys hzs hxy hyz
    rw [Members.agree_iff] at hxy hyz ⊢
    refine ⟨hxy.1.trans hyz.1, ?_⟩
    intro name x hx
    rcases hxy.2 name x hx with ⟨y, hy, hxy⟩
    rcases hyz.2 name y hy with ⟨z, hz, hyz⟩
    refine ⟨z, hz, ?_⟩
    rw [h.congr (hxs name x hx) (hys name y hy) (hzs name z hz) hxy]
    exact hyz

end ScriptEngine
