import ScriptEngine.Engine.Setup
import ScriptEngine.Proofs.DataOrder
import ScriptEngine.Proofs.Run

/-!
This module contains the comparison of data: it finds the order of data, without a change of the state,
and the comparison operators follow that order.
-/

namespace ScriptEngine

theorem Comparison.ofOrdering?_beq_eq (o : Option Ordering) : (ofOrdering? o == eq) = (o == some .eq) := by
  rcases o with _ | _ | _ | _ <;> rfl

namespace Machine

variable {m : Machine} {s : State}

theorem compareItems_apply {compare : Value → Value → Run Comparison} {order : Value → Value → Option Ordering}
    {as bs : List Value}
    (h : ∀ a ∈ as, ∀ b ∈ bs, compare a b s = .ok (.ofOrdering? (order a b)) s)
    : compareItems compare as bs s = .ok (.ofOrdering? (itemsOrder order as bs)) s := by
  induction as generalizing bs with
  | nil => cases bs <;> rfl
  | cons a as ih =>
    cases bs with
    | nil => rfl
    | cons b bs =>
      have hfirst := h a List.mem_cons_self b List.mem_cons_self
      have hrest := ih fun a' ha b' hb => h a' (List.mem_cons_of_mem a ha) b' (List.mem_cons_of_mem b hb)
      rw [compareItems, Run.bind_ok hfirst, itemsOrder, Comparison.ofOrdering?_beq_eq]
      by_cases heq : order a b = some .eq
      . rw [if_pos heq, if_pos (beq_iff_eq.mpr heq), hrest]
      . rw [if_neg heq, if_neg (by simpa using heq)]
        rfl

theorem sameMembers_apply {equal : Value → Value → Run Bool} {order : Value → Value → Option Ordering}
    {other : Members} {entries : List (String × Value)}
    (h : ∀ e ∈ entries, ∀ b, other.get? e.1 = some b → equal e.2 b s = .ok (order e.2 b == some .eq) s)
    : sameMembers equal other entries s =
        .ok (entries.all fun e => (other.get? e.1).any fun b => order e.2 b == some .eq) s := by
  induction entries with
  | nil => rfl
  | cons e entries ih =>
    rw [sameMembers, List.all_cons]
    cases hget : other.get? e.1 with
    | none => rfl
    | some b =>
      have hrest := ih fun e' he => h e' (List.mem_cons_of_mem e he)
      dsimp only
      rw [Run.bind_ok (h e List.mem_cons_self b hget), Option.any_some]
      cases order e.2 b == some .eq with
      | false => rfl
      | true => exact hrest

theorem go_unlike {depth : Nat} {a b : Value} (ha : a.kind ≠ .other) (hb : b.kind ≠ .other)
    (hkind : a.kind ≠ b.kind)
    : compareValues.go m (depth + 1) a b s = .ok .unrelated s := by
  cases a <;> cases b <;> simp [Value.kind] at ha hb hkind <;> rfl

theorem go_numbers {depth : Nat} {a b : Value} (ha : a.kind = .number) (hb : b.kind = .number)
    : compareValues.go m (depth + 1) a b s = .ok (.ofOrdering (compare a.number b.number)) s := by
  match a, b, ha, hb with
  | .int i, .int j, _, _ =>
    show EStateM.Result.ok (Comparison.ofOrdering (compare i.toInt j.toInt)) s = _
    have hcast := (Int.cast_strictMono (R := ℚ)).cmp_map_eq i.toInt j.toInt
    rw [cmp_eq_compare, cmp_eq_compare] at hcast
    exact congrArg (fun o => EStateM.Result.ok (Comparison.ofOrdering o) s) hcast.symm
  | .int i, .decimal y, _, _ =>
    show EStateM.Result.ok (Comparison.ofOrdering ((Decimal.ofWord i).order y)) s = _
    rw [Decimal.order_eq, Decimal.value_ofWord]
    rfl
  | .decimal x, .int j, _, _ =>
    show EStateM.Result.ok (Comparison.ofOrdering (x.order (Decimal.ofWord j))) s = _
    rw [Decimal.order_eq, Decimal.value_ofWord]
    rfl
  | .decimal x, .decimal y, _, _ =>
    show EStateM.Result.ok (Comparison.ofOrdering (x.order y)) s = _
    rw [Decimal.order_eq]
    rfl

theorem members_apply {equal : Value → Value → Run Bool} {order : Value → Value → Option Ordering} {xs ys : Members}
    (h : ∀ e ∈ xs.entries, ∀ b, ys.get? e.1 = some b → equal e.2 b s = .ok (order e.2 b == some .eq) s)
    : (if xs.size != ys.size then pure .unrelated
        else do
          let same ← sameMembers equal ys xs.entries
          return if same then .eq else .unrelated : Run Comparison) s =
        .ok (.ofOrdering? (Members.order order xs ys)) s := by
  rw [Members.order, Members.agree]
  by_cases hsize : xs.size = ys.size
  . rw [if_neg (by simpa using hsize), Run.bind_ok (sameMembers_apply h), beq_iff_eq.mpr hsize, Bool.true_and]
    split <;> rfl
  . rw [if_pos (by simpa using hsize), beq_eq_false_iff_ne.mpr hsize, Bool.false_and]
    rfl

theorem equalBy_apply {compare : Value → Value → Run Comparison} {a b : Value} {o : Option Ordering}
    (hook : Run.findHook a "__eq__" s = .ok none s) (h : compare a b s = .ok (.ofOrdering? o) s)
    : m.equalBy compare a b s = .ok (o == some .eq) s := by
  rw [equalBy, Run.bind_ok hook]
  dsimp only
  rw [Run.bind_ok h, Comparison.ofOrdering?_beq_eq]
  rfl

section Like

variable {depth fuel : Nat} {a b : Value}

theorem go_bytes (ha : a.kind = .bytes) (hb : b.kind = .bytes)
    : compareValues.go m (fuel + 1) a b s = .ok (.ofOrdering (bytesOrder (s.heap.dataOf a) (s.heap.dataOf b))) s := by
  match a, b, ha, hb with
  | .bytes x, .bytes y, _, _ =>
    rw [compareValues.go]
    split
    . next heq =>
      have hself (data : List UInt8) : bytesOrder data data = .eq := Std.ReflCmp.compare_self
      rw [beq_iff_eq.mp heq, hself]
      rfl
    . rfl

variable (ha : s.heap.DataWithin (depth + 1) a) (hb : s.heap.DataWithin (depth + 1) b)
  (hgo : ∀ x ∈ s.heap.parts a, ∀ y ∈ s.heap.parts b,
    compareValues.go m fuel x y s = .ok (.ofOrdering? (s.heap.dataOrder depth x y)) s)

include hb hgo

theorem go_arrays (hkind : a.kind = .array) (hkind' : b.kind = .array)
    : compareValues.go m (fuel + 1) a b s =
        .ok (.ofOrdering? (itemsOrder (s.heap.dataOrder depth) (s.heap.parts a) (s.heap.parts b))) s := by
  match a, b, hkind, hkind' with
  | .array x, .array y, _, _ =>
    rw [compareValues.go]
    split
    . next heq =>
      -- The items are not looked at, so that they are equal to themselves has to be known before.
      rw [beq_iff_eq.mp heq, (s.heap.dataOrder_orders depth).items.refl hb.2]
      rfl
    . exact compareItems_apply hgo

variable (hooks : a.kind = .object → ∀ x ∈ s.heap.parts a, Run.findHook x "__eq__" s = .ok none s)

include hooks

theorem go_objects (hkind : a.kind = .object) (hkind' : b.kind = .object)
    : compareValues.go m (fuel + 1) a b s =
        .ok (.ofOrdering? (Members.order (s.heap.dataOrder depth) (s.heap.membersOf a) (s.heap.membersOf b))) s := by
  match a, b, hkind, hkind' with
  | .object x, .object y, _, _ =>
    rw [compareValues.go]
    split
    . next heq =>
      have hmembers : s.heap.membersOf (.object x) = s.heap.membersOf (.object y) := by
        show (s.heap.inst x).members = (s.heap.inst y).members
        unfold Heap.inst
        rw [beq_iff_eq.mp heq]
      rw [hmembers, (s.heap.dataOrder_orders depth).members.refl hb.members]
      rfl
    . apply members_apply
      intro e he y hy
      have hx : e.2 ∈ s.heap.parts (.object x) := List.mem_map_of_mem he
      rw [← Members.mem_entries_iff] at hy
      exact equalBy_apply (hooks rfl e.2 hx) (hgo e.2 hx y (List.mem_map_of_mem hy))

include ha

theorem go_like {kind : Value.Kind} (hkind : a.kind = kind) (hkind' : b.kind = kind)
    : compareValues.go m (fuel + 1) a b s =
        .ok (.ofOrdering? (s.heap.orderAs (s.heap.dataOrder depth) kind a b)) s := by
  cases kind with
  | undefined =>
    match a, b, hkind, hkind' with
    | .undefined, .undefined, _, _ => rfl
  | nil =>
    match a, b, hkind, hkind' with
    | .nil, .nil, _, _ => rfl
  | bool =>
    match a, b, hkind, hkind' with
    | .bool _, .bool _, _, _ => rfl
  | number => exact go_numbers hkind hkind'
  | str =>
    match a, b, hkind, hkind' with
    | .str _, .str _, _, _ => rfl
  | bytes => exact go_bytes hkind hkind'
  | array => exact go_arrays hb hgo hkind hkind'
  | object => exact go_objects hb hgo hooks hkind hkind'
  | other => exact absurd hkind ha.1

theorem go_data
    : compareValues.go m (fuel + 1) a b s = .ok (.ofOrdering? (s.heap.dataOrder (depth + 1) a b)) s := by
  by_cases hkind : a.kind = b.kind
  . rw [dataOrder_of_kind hkind rfl]
    exact go_like ha hb hgo hooks hkind rfl
  . rw [Heap.dataOrder, if_neg hkind]
    exact go_unlike ha.1 hb.1 hkind

end Like

theorem go_apply {depth fuel : Nat} {a b : Value} (ha : s.PlainWithin depth a) (hb : s.PlainWithin depth b)
    (hfuel : depth ≤ fuel)
    : compareValues.go m fuel a b s = .ok (.ofOrdering? (s.heap.dataOrder depth a b)) s := by
  induction depth generalizing fuel a b with
  | zero => exact ha.2.elim
  | succ depth ih =>
    cases fuel with
    | zero => omega
    | succ fuel =>
      apply go_data ha.dataWithin hb.dataWithin
      . intro x hx y hy
        exact ih (ha.parts x hx) (hb.parts y hy) (by omega)
      . intro _ x hx
        exact (ha.parts x hx).1.unhooked

end Machine

namespace CompareOp

/-- Whether an operator holds between values that are ordered so. -/
def holds (op : CompareOp) (order : Option Ordering) : Bool :=
  match op with
  | .eq => order == some .eq
  | .ne => order != some .eq
  | .lt => order == some .lt
  | .le => order == some .lt || order == some .eq
  | .gt => order == some .gt
  | .ge => order == some .gt || order == some .eq

variable {o : Option Ordering}

theorem holds_le : le.holds o ↔ lt.holds o ∨ eq.holds o := Bool.or_eq_true_iff ..

theorem holds_ge : ge.holds o ↔ le.holds (o.map Ordering.swap) := by
  rcases o with _ | _ | _ | _ <;> decide

theorem holds_ne : ne.holds o ↔ ¬eq.holds o := by
  rcases o with _ | _ | _ | _ <;> decide

theorem not_holds_lt_ge : ¬(lt.holds o ∧ ge.holds o) := by
  rcases o with _ | _ | _ | _ <;> decide

end CompareOp

/-- Nothing overrides the comparison operators for a value. -/
def State.Uncompared (s : State) (value : Value) : Prop :=
  ∀ op : CompareOp, Run.findHook value op.hook s = .ok none s

theorem Machine.compareOp_apply {m : Machine} {s : State} {a b : Value} {o : Option Ordering} (op : CompareOp)
    (hook : s.Uncompared a) (h : m.compareValues a b s = .ok (.ofOrdering? o) s)
    : m.compareOp op a b s = .ok (op.holds o) s := by
  have hequal : m.valuesEqual a b s = .ok (o == some .eq) s := equalBy_apply (hook .eq) h
  unfold compareOp
  rw [Run.bind_ok (hook op)]
  cases op with
  | eq => exact hequal
  | ne => exact Run.bind_ok hequal
  | lt | le | gt | ge =>
    refine (Run.bind_ok h).trans ?_
    rcases o with _ | _ | _ | _ <;> rfl

/--
Comparing data never fails and finds at most one of three relations, which order it partially; equal
data cannot be told apart. The operators follow the order where nothing overrides them.
-/
theorem comparison_orders_data (s : State)
    : ∃ (depth : Nat) (order : Value → Value → Option Ordering) (holds : CompareOp → Value → Value → Bool),
      ∀ a b c, s.Plain a → s.Plain b → s.Plain c →
        (∀ m : Machine, depth ≤ m.fuel → m.compareValues a b s = .ok (.ofOrdering? (order a b)) s) ∧
        order a a = some .eq ∧
        (order a b = some .lt ↔ order b a = some .gt) ∧
        (order a b = some .eq ↔ order b a = some .eq) ∧
        (order a b = some .lt → order b c = some .lt → order a c = some .lt) ∧
        (order a b = some .eq → order b c = some .eq → order a c = some .eq) ∧
        (order a b = some .eq → order a c = order b c ∧ order c a = order c b) ∧
        (s.Uncompared a → ∀ m : Machine, depth ≤ m.fuel → ∀ op, m.compareOp op a b s = .ok (holds op a b) s) ∧
        (holds .le a b ↔ holds .lt a b ∨ holds .eq a b) ∧
        (holds .ge a b ↔ holds .le b a) ∧
        (holds .ne a b ↔ ¬holds .eq a b) ∧
        ¬(holds .lt a b ∧ holds .ge a b) := by
  rcases s.heap.exists_nests with ⟨depth, hdepth⟩
  have hwithin {value : Value} (h : s.Plain value) : s.PlainWithin depth value := ⟨h, hdepth value h.exists_nests⟩
  have horder := dataOrder_orders s depth
  refine ⟨depth, s.heap.dataOrder depth, fun op a b => op.holds (s.heap.dataOrder depth a b), ?_⟩
  intro a b c ha hb hc
  have ha := hwithin ha
  have hb := hwithin hb
  have hc := hwithin hc
  have hcompare (m : Machine) (hfuel : depth ≤ m.fuel)
      : m.compareValues a b s = .ok (.ofOrdering? (s.heap.dataOrder depth a b)) s :=
    Machine.go_apply ha hb hfuel
  refine ⟨hcompare, horder.refl ha, horder.lt_iff_gt ha hb, horder.eq_comm ha hb, horder.trans ha hb hc, ?_, ?_, ?_,
    ?_, ?_, ?_, ?_⟩
  . intro hab hbc
    rw [horder.congr ha hb hc hab]
    exact hbc
  . intro hab
    exact ⟨horder.congr ha hb hc hab, horder.congr_right ha hb hc hab⟩
  . intro hook m hfuel op
    exact Machine.compareOp_apply op hook (hcompare m hfuel)
  . exact CompareOp.holds_le
  . show _ ↔ CompareOp.le.holds (s.heap.dataOrder depth b a)
    rw [horder.swap ha hb]
    exact CompareOp.holds_ge
  . exact CompareOp.holds_ne
  . exact CompareOp.not_holds_lt_ge

/-- Lists with a word and a decimal number first, and objects that have their members in another order. -/
theorem nested_lists_are_ordered
    : let s := Engine.stateAfter
        (do
          let first ← Run.newObject [("k", ← Run.newBytes #[1, 2]), ("n", .nil)]
          let second ← Run.newObject [("n", .nil), ("k", ← Run.newBytes #[1, 2])]
          _ ← Run.newArray #[.int 1, first]
          _ ← Run.newArray #[.decimal ⟨10, 1⟩, second]
          _ ← Run.newArray #[.int 2, .undefined])
        (Engine.bareState {} .silent 0)
      let a := Value.array ⟨0⟩
      let b := Value.array ⟨1⟩
      let c := Value.array ⟨2⟩
      s.Plain a ∧ s.Plain b ∧ s.Plain c ∧
        ∃ depth, ∀ m : Machine, depth ≤ m.fuel →
          m.compareValues a b s = .ok .eq s ∧ m.compareValues a c s = m.compareValues b c s := by
  intro s a b c
  have hleaf {value : Value} (hdata : value.kind ≠ .other) (hook : Run.findHook value "__eq__" s = .ok none s)
      (hparts : s.heap.parts value = []) : s.Plain value :=
    .intro hdata hook (by rw [hparts]; exact List.forall_mem_nil _)
  have hpair {value x y : Value} (hdata : value.kind ≠ .other) (hook : Run.findHook value "__eq__" s = .ok none s)
      (hparts : s.heap.parts value = [x, y]) (hx : s.Plain x) (hy : s.Plain y) : s.Plain value :=
    .intro hdata hook (by rw [hparts]; simp [hx, hy])
  have hobject : s.Plain (.object (.ofInstance ⟨0⟩)) :=
    hpair nofun rfl rfl (x := .bytes ⟨0⟩) (hleaf nofun rfl rfl) (hleaf nofun rfl rfl)
  have hobject' : s.Plain (.object (.ofInstance ⟨1⟩)) :=
    hpair nofun rfl rfl (y := .bytes ⟨1⟩) (hleaf nofun rfl rfl) (hleaf nofun rfl rfl)
  have ha : s.Plain a := hpair nofun rfl rfl (hleaf nofun rfl rfl) hobject
  have hb : s.Plain b := hpair nofun rfl rfl (hleaf nofun rfl rfl) hobject'
  have hc : s.Plain c := hpair nofun rfl rfl (hleaf nofun rfl rfl) (hleaf nofun rfl rfl)
  rcases comparison_orders_data s with ⟨depth, order, holds, h⟩
  have hequal (m : Machine) (hfuel : depth + 3 ≤ m.fuel) : m.compareValues a b s = .ok .eq s := by
    rcases Nat.exists_eq_add_of_le' (Nat.le_of_add_left_le hfuel) with ⟨rest, hrest⟩
    unfold Machine.compareValues
    rw [hrest]
    rfl
  rcases h a b c ha hb hc with ⟨hab, -, -, -, -, -, hcongr, -⟩
  have heq : order a b = some .eq := by
    have hcompare := hab { Machine.spent with fuel := depth + 3 } (Nat.le_add_right _ _)
    rw [hequal _ (Nat.le_refl _)] at hcompare
    injection hcompare with hcompare
    rw [← beq_iff_eq, ← Comparison.ofOrdering?_beq_eq, ← hcompare]
    rfl
  refine ⟨ha, hb, hc, depth + 3, ?_⟩
  intro m hfuel
  have hdepth : depth ≤ m.fuel := Nat.le_of_add_right_le hfuel
  refine ⟨hequal m hfuel, ?_⟩
  rw [(h a c c ha hc hc).1 m hdepth, (h b c c hb hc hc).1 m hdepth, (hcongr heq).1]

end ScriptEngine
