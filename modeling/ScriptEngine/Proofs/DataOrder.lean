import ScriptEngine.Eval.Compare
import ScriptEngine.Proofs.DecimalOrder
import ScriptEngine.Proofs.OrderLaws

/-!
This module contains the order of data: values without functions, types and floating point numbers in
them that do not contain themselves. How deep they are nested is bounded by the heap, and up to any
depth they are ordered partially.
-/

namespace ScriptEngine

namespace Value

/-- The kinds of data, and one for everything else. Data is related only to data of the same kind. -/
inductive Kind where
  | undefined | nil | bool | number | str | bytes | array | object
  | other
deriving DecidableEq

def kind : Value → Kind
  | .undefined => .undefined
  | .nil => .nil
  | .bool _ => .bool
  | .int _ | .decimal _ => .number
  | .str _ => .str
  | .bytes _ => .bytes
  | .array _ => .array
  | .object _ => .object
  | .float _ | .func _ | .native _ | .bound .. | .type _ | .host _ => .other

/-- What values of a kind are compared by. -/
def truth : Value → Bool
  | .bool b => b
  | _ => false

def text : Value → String
  | .str s => s
  | _ => ""

/-- The number that a number stands for. -/
def number : Value → ℚ
  | .int i => i.toInt
  | .decimal d => d.value
  | _ => 0

end Value

namespace Heap

/-- The values that a value holds. -/
def parts (h : Heap) : Value → List Value
  | .array ref => (h.items ref).toList
  | .object handle => (h.members handle).entries.map Prod.snd
  | _ => []

def dataOf (h : Heap) : Value → List UInt8
  | .bytes ref => (h.data ref).toList
  | _ => []

def membersOf (h : Heap) : Value → Members
  | .object handle => h.members handle
  | _ => .empty

/-- Whether a value is nested at most `depth` deep. -/
def Nests (h : Heap) : Nat → Value → Prop
  | 0, _ => False
  | depth + 1, value => ∀ part ∈ h.parts value, h.Nests depth part

/-- Compares two values as values of the same kind, and what they hold with `cmp`. -/
def orderAs (h : Heap) (cmp : Value → Value → Option Ordering) (kind : Value.Kind) (a b : Value) : Option Ordering :=
  match kind with
  | .undefined | .nil => some .eq
  | .bool => some (compare a.truth b.truth)
  | .number => some (compare a.number b.number)
  | .str => some (compare a.text b.text)
  | .bytes => some (Machine.bytesOrder (h.dataOf a) (h.dataOf b))
  | .array => itemsOrder cmp (h.parts a) (h.parts b)
  | .object => Members.order cmp (h.membersOf a) (h.membersOf b)
  | .other => none

/-- The order of data that is nested at most `depth` deep. -/
def dataOrder (h : Heap) : Nat → Value → Value → Option Ordering
  | 0, _, _ => none
  | depth + 1, a, b => if a.kind = b.kind then h.orderAs (h.dataOrder depth) a.kind a b else none

section Nests

variable {h : Heap} {value : Value} {depth depth' : Nat}

theorem Nests.mono (hnests : h.Nests depth value) (hle : depth ≤ depth') : h.Nests depth' value := by
  induction depth generalizing depth' value with
  | zero => exact hnests.elim
  | succ depth ih =>
    cases depth' with
    | zero => omega
    | succ depth' =>
      intro part hpart
      exact ih (hnests part hpart) (by omega)

theorem Nests.of_parts_nil (hparts : h.parts value = []) : h.Nests 1 value := by
  intro part hpart
  rw [hparts] at hpart
  exact absurd hpart List.not_mem_nil

theorem Nests.of_parts_eq {other : Value} (hparts : h.parts value = h.parts other) (hnests : h.Nests depth other)
    : h.Nests depth value := by
  cases depth with
  | zero => exact hnests.elim
  | succ depth =>
    intro part hpart
    rw [hparts] at hpart
    exact hnests part hpart

theorem exists_nests_all (h : Heap) (values : List Value)
    : ∃ depth, ∀ value ∈ values, (∃ d, h.Nests d value) → h.Nests depth value := by
  induction values with
  | nil => exact ⟨0, by simp⟩
  | cons value values ih =>
    rcases ih with ⟨depth, hdepth⟩
    by_cases hvalue : ∃ d, h.Nests d value
    . rcases hvalue with ⟨d, hd⟩
      refine ⟨max d depth, ?_⟩
      rw [List.forall_mem_cons]
      refine ⟨fun _ => hd.mono (by omega), ?_⟩
      intro other hother hfinite
      exact (hdepth other hother hfinite).mono (by omega)
    . refine ⟨depth, ?_⟩
      rw [List.forall_mem_cons]
      exact ⟨fun hfinite => absurd hfinite hvalue, hdepth⟩

/-- The values that hold others: all arrays and all objects. -/
def containers (h : Heap) : List Value :=
  (List.range h.arrays.size).map (fun i => .array ⟨i⟩) ++
    (List.range h.instances.size).map fun i => .object (.ofInstance ⟨i⟩)

theorem parts_of_containers (h : Heap) (value : Value)
    : h.parts value = [] ∨ ∃ container ∈ h.containers, h.parts value = h.parts container := by
  cases value with
  | array ref =>
    by_cases hsize : ref.index < h.arrays.size
    . refine .inr ⟨.array ref, ?_, rfl⟩
      exact List.mem_append_left _ (List.mem_map.mpr ⟨ref.index, List.mem_range.mpr hsize, rfl⟩)
    . left
      simp [parts, items, hsize]
  | object handle =>
    by_cases hsize : handle.real.index < h.instances.size
    . refine .inr ⟨.object handle.realThis, ?_, rfl⟩
      exact List.mem_append_right _ (List.mem_map.mpr ⟨handle.real.index, List.mem_range.mpr hsize, rfl⟩)
    . left
      simp [parts, members, inst, hsize]
      rfl
  | _ => exact .inl rfl

/-- The finite values of a heap have a common depth, though they may be infinitely many. -/
theorem exists_nests (h : Heap) : ∃ depth, ∀ value, (∃ d, h.Nests d value) → h.Nests depth value := by
  rcases h.exists_nests_all h.containers with ⟨depth, hdepth⟩
  refine ⟨depth + 1, ?_⟩
  rintro value ⟨d, hd⟩
  -- Views differ from the object that they are of, but not in what they hold.
  rcases h.parts_of_containers value with hparts | ⟨container, hmem, hparts⟩
  . exact (Nests.of_parts_nil hparts).mono (by omega)
  . have hcontainer := hdepth container hmem ⟨d, hd.of_parts_eq hparts.symm⟩
    exact (hcontainer.of_parts_eq hparts).mono (by omega)

end Nests

/-- Whether a value is data all the way down, and nested at most `depth` deep. -/
def DataWithin (h : Heap) : Nat → Value → Prop
  | 0, _ => False
  | depth + 1, value => value.kind ≠ .other ∧ ∀ part ∈ h.parts value, h.DataWithin depth part

theorem DataWithin.members {h : Heap} {value : Value} {depth : Nat} (hdata : h.DataWithin (depth + 1) value)
    : ∀ name part, (h.membersOf value).get? name = some part → h.DataWithin depth part := by
  intro name part hpart
  apply hdata.2
  cases value with
  | object handle =>
    rw [← Members.mem_entries_iff] at hpart
    exact List.mem_map_of_mem hpart
  | _ => simp [membersOf, Members.empty, MemberTable.empty, MemberTable.get?] at hpart

end Heap

/--
A value that is data all the way down, finite as every value of an inductive predicate is, and in
which nothing has a hook for equality.
-/
inductive State.Plain (s : State) : Value → Prop where
  | intro {value : Value} (data : value.kind ≠ .other)
      (unhooked : Run.findHook value "__eq__" s = .ok none s)
      (parts : ∀ part ∈ s.heap.parts value, s.Plain part)
      : s.Plain value

namespace State

variable {s : State} {value : Value} {depth : Nat}

theorem Plain.data (h : s.Plain value) : value.kind ≠ .other := by
  cases h
  assumption

theorem Plain.unhooked (h : s.Plain value) : Run.findHook value "__eq__" s = .ok none s := by
  cases h
  assumption

theorem Plain.parts (h : s.Plain value) : ∀ part ∈ s.heap.parts value, s.Plain part := by
  cases h
  assumption

theorem Plain.exists_nests (h : s.Plain value) : ∃ depth, s.heap.Nests depth value := by
  induction h with
  | @intro value data unhooked parts ih =>
    rcases s.heap.exists_nests_all (s.heap.parts value) with ⟨depth, hdepth⟩
    exact ⟨depth + 1, fun part hpart => hdepth part hpart (ih part hpart)⟩

/-- The data that is nested at most `depth` deep. -/
def PlainWithin (s : State) (depth : Nat) (value : Value) : Prop := s.Plain value ∧ s.heap.Nests depth value

theorem PlainWithin.parts (h : s.PlainWithin (depth + 1) value)
    : ∀ part ∈ s.heap.parts value, s.PlainWithin depth part := by
  intro part hpart
  exact ⟨h.1.parts part hpart, h.2 part hpart⟩

theorem PlainWithin.dataWithin (h : s.PlainWithin depth value) : s.heap.DataWithin depth value := by
  induction depth generalizing value with
  | zero => exact h.2.elim
  | succ depth ih => exact ⟨h.1.data, fun part hpart => ih (h.parts part hpart)⟩

end State

theorem bytesOrder_eq (as bs : List UInt8)
    : Machine.bytesOrder as bs = compare (as.map UInt8.toNat) (bs.map UInt8.toNat) := by
  induction as generalizing bs with
  | nil => cases bs <;> rfl
  | cons a as ih =>
    cases bs with
    | nil => rfl
    | cons b bs => rw [Machine.bytesOrder, List.map_cons, List.map_cons, List.compare_cons_cons, ih]

instance : Std.TransCmp Machine.bytesOrder where
  eq_swap {as bs} := by
    rw [bytesOrder_eq, bytesOrder_eq]
    exact Std.OrientedCmp.eq_swap
  isLE_trans {as bs cs} hab hbc := by
    rw [bytesOrder_eq] at hab hbc ⊢
    exact Std.TransCmp.isLE_trans hab hbc

theorem orderAs_orders {h : Heap} {depth : Nat} {cmp : Value → Value → Option Ordering}
    (hcmp : OrdersOn (h.DataWithin depth) cmp) {kind : Value.Kind} (hkind : kind ≠ .other)
    : OrdersOn (h.DataWithin (depth + 1)) (h.orderAs cmp kind) := by
  cases kind with
  | undefined => exact .of_transCmp compare fun _ => ()
  | nil => exact .of_transCmp compare fun _ => ()
  | bool => exact .of_transCmp compare Value.truth
  | number => exact .of_transCmp compare Value.number
  | str => exact .of_transCmp compare Value.text
  | bytes => exact .of_transCmp Machine.bytesOrder h.dataOf
  | array =>
    apply hcmp.items.comap h.parts
    . intro a ha
      exact ha.2
    . intro a b _ _
      rfl
  | object =>
    apply hcmp.members.comap h.membersOf
    . intro a ha
      exact ha.members
    . intro a b _ _
      rfl
  | other => exact absurd rfl hkind

theorem dataOrder_of_kind {h : Heap} {depth : Nat} {a b : Value} {kind : Value.Kind} (ha : a.kind = kind)
    (hb : b.kind = kind)
    : h.dataOrder (depth + 1) a b = h.orderAs (h.dataOrder depth) kind a b := by
  rw [Heap.dataOrder, ha, hb, if_pos rfl]

theorem Heap.dataOrder_orders (h : Heap) (depth : Nat) : OrdersOn (h.DataWithin depth) (h.dataOrder depth) := by
  induction depth with
  | zero => exact .of_empty fun _ => id
  | succ depth ih =>
    apply OrdersOn.of_kinds Value.kind
    . intro kind
      by_cases hkind : kind = .other
      . apply OrdersOn.of_empty
        intro a ha
        exact ha.1.1 (ha.2.trans hkind)
      . apply (orderAs_orders ih hkind).comap id
        . intro a ha
          exact ha.1
        . intro a b ha hb
          exact dataOrder_of_kind ha.2 hb.2
    . intro a b _ _ o hab
      rw [dataOrder] at hab
      split at hab
      . assumption
      . injection hab

theorem dataOrder_orders (s : State) (depth : Nat) : OrdersOn (s.PlainWithin depth) (s.heap.dataOrder depth) :=
  (s.heap.dataOrder_orders depth).comap id (fun _ => State.PlainWithin.dataWithin) fun _ _ _ _ => rfl

end ScriptEngine
