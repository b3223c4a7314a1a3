import ScriptEngine.Value.Members

/-!
This module contains what member tables do, seen from outside: through the index, the entries are
those of a plain table in the order of their first definition. The index is right after every
sequence of operations, and what an operation does to one name it does not do to another.
-/

namespace ScriptEngine

/-- What can be done to a member table. -/
inductive MemberOp where
  | set (name : String) (value : Value)
  | remove (name : String)

/-- What an operation does to a table without an index. -/
def Table.edit (t : Table Value) : MemberOp → Table Value
  | .set name value => if value.isUndefined then t.erase name else t.put name value
  | .remove name => t.erase name

namespace MemberTable

def edit (t : MemberTable) : MemberOp → MemberTable
  | .set name value => t.set name value
  | .remove name => (t.remove name).2

/-- The table after a sequence of operations on an empty one. -/
def after (ops : List MemberOp) : MemberTable := ops.foldl edit empty

/-- The entries without the index. -/
def listing (t : MemberTable) : Table Value := ⟨t.entries⟩

theorem Sound.edit {t : MemberTable} (h : t.Sound) (op : MemberOp) : (t.edit op).Sound := by
  cases op with
  | set name value => exact h.set name value
  | remove name => exact h.remove name

theorem Sound.foldl_edit {t : MemberTable} (h : t.Sound) (ops : List MemberOp)
    : (ops.foldl MemberTable.edit t).Sound := by
  induction ops generalizing t with
  | nil => exact h
  | cons op ops ih => exact ih (h.edit op)

theorem after_sound (ops : List MemberOp) : (after ops).Sound := empty_sound.foldl_edit ops

variable {t : MemberTable}

theorem Sound.keys_nodup (h : t.Sound) : t.keys.Nodup := by
  rw [List.nodup_iff_pairwise_ne, List.pairwise_iff_getElem]
  intro i j hi hj hij heq
  have hi : t.keys[i]? = some t.keys[j] := by rw [List.getElem?_eq_getElem hi, heq]
  have hplace := h.place_unique t.keys[j] i j hi (List.getElem?_eq_getElem hj)
  omega

theorem Sound.not_mem_keys (h : t.Sound) {name : String} (hplace : t.index.get? name = none)
    : name ∉ t.keys := by
  intro hmem
  rcases List.mem_iff_getElem?.mp hmem with ⟨i, hi⟩
  rw [← h.places name i, hplace] at hi
  injection hi

theorem Sound.getElem?_of_place (h : t.Sound) {name : String} {place : Nat}
    (hplace : t.index.get? name = some place)
    : ∃ value, t.entries[place]? = some (name, value) := by
  have hkey := (h.places name place).mp hplace
  rw [keys, List.getElem?_map, Option.map_eq_some_iff] at hkey
  rcases hkey with ⟨e, he, hname⟩
  exact ⟨e.2, by rw [he, ← hname]⟩

theorem Sound.get?_eq (h : t.Sound) (name : String) : t.get? name = t.listing.get? name := by
  cases hplace : t.index.get? name with
  | none =>
    have hlisting : t.listing.get? name = none := by
      rw [← Option.not_isSome_iff_eq_none, Table.get?_isSome_iff]
      exact h.not_mem_keys hplace
    simp [get?, hplace, hlisting]
  | some place =>
    rcases h.getElem?_of_place hplace with ⟨value, hvalue⟩
    have hlisting : t.listing.get? name = some value := by
      apply Table.get?_of_mem
      . exact h.keys_nodup
      . exact List.mem_of_getElem? hvalue
    simp [get?, hplace, hvalue, hlisting]

theorem Sound.contains_eq (h : t.Sound) (name : String) : t.contains name = t.listing.contains name := by
  unfold Table.contains
  rw [← h.get?_eq]
  cases hplace : t.index.get? name with
  | none => simp [contains, Table.contains, get?, hplace]
  | some place =>
    rcases h.getElem?_of_place hplace with ⟨value, hvalue⟩
    simp [contains, Table.contains, get?, hplace, hvalue]

section Entries

variable {entries : List (String × Value)} {name : String} {place : Nat} {value : Value}

theorem eraseIdx_eq_filter (hnodup : (entries.map Prod.fst).Nodup)
    (hplace : (entries.map Prod.fst)[place]? = some name)
    : entries.eraseIdx place = entries.filter fun e => e.1 != name := by
  induction entries generalizing place with
  | nil => simp at hplace
  | cons e rest ih =>
    simp only [List.map_cons, List.nodup_cons] at hnodup hplace
    cases place with
    | zero =>
      simp only [List.getElem?_cons_zero, Option.some.injEq] at hplace
      rw [hplace] at hnodup
      have hrest : rest.filter (fun e => e.1 != name) = rest := by
        rw [List.filter_eq_self]
        intro e' he'
        have hne : e'.1 ≠ name := by
          intro heq
          apply hnodup.1
          rw [← heq]
          exact List.mem_map_of_mem he'
        simp [hne]
      simp [hplace, hrest]
    | succ place =>
      simp only [List.getElem?_cons_succ] at hplace
      have hne : e.1 ≠ name := by
        intro heq
        apply hnodup.1
        rw [heq]
        exact List.mem_of_getElem? hplace
      rw [List.eraseIdx_cons_succ, ih hnodup.2 hplace, List.filter_cons_of_pos (by simp [hne])]

theorem modify_eq_put (hnodup : (entries.map Prod.fst).Nodup)
    (hplace : (entries.map Prod.fst)[place]? = some name)
    : entries.modify place (fun e => (e.1, value)) = Table.put.go name value entries := by
  induction entries generalizing place with
  | nil => simp at hplace
  | cons e rest ih =>
    simp only [List.map_cons, List.nodup_cons] at hnodup hplace
    unfold Table.put.go
    cases place with
    | zero =>
      simp only [List.getElem?_cons_zero, Option.some.injEq] at hplace
      simp [hplace]
    | succ place =>
      simp only [List.getElem?_cons_succ] at hplace
      have hne : e.1 ≠ name := by
        intro heq
        apply hnodup.1
        rw [heq]
        exact List.mem_of_getElem? hplace
      rw [List.modify_succ_cons, ih hnodup.2 hplace, if_neg hne]

theorem append_eq_put (habsent : name ∉ entries.map Prod.fst)
    : entries ++ [(name, value)] = Table.put.go name value entries := by
  induction entries with
  | nil => rfl
  | cons e rest ih =>
    simp only [List.map_cons, List.mem_cons, not_or] at habsent
    unfold Table.put.go
    rw [List.cons_append, ih habsent.2, if_neg (Ne.symm habsent.1)]

end Entries

theorem Sound.listing_remove (h : t.Sound) (name : String)
    : (t.remove name).2.listing = t.listing.erase name := by
  unfold MemberTable.remove
  split
  . next hplace =>
    have habsent := h.not_mem_keys hplace
    have hrest : t.entries.filter (fun e => e.1 != name) = t.entries := by
      rw [List.filter_eq_self]
      intro e he
      have hne : e.1 ≠ name := by
        intro heq
        apply habsent
        rw [← heq]
        exact List.mem_map_of_mem he
      simp [hne]
    simp only [listing, Table.erase, hrest]
  . next place hplace =>
    simp only [listing, Table.erase]
    rw [eraseIdx_eq_filter h.keys_nodup ((h.places name place).mp hplace)]

theorem Sound.listing_set (h : t.Sound) (name : String) (value : Value)
    : (t.set name value).listing = t.listing.edit (.set name value) := by
  simp only [MemberTable.set, Table.edit]
  split
  . exact h.listing_remove name
  . split
    . next place hplace =>
      simp only [listing, Table.put]
      rw [modify_eq_put h.keys_nodup ((h.places name place).mp hplace)]
    . next hplace =>
      simp only [listing, Table.put]
      rw [append_eq_put (h.not_mem_keys hplace)]

theorem Sound.remove_fst (h : t.Sound) (name : String) : (t.remove name).1 = t.get? name := by
  unfold MemberTable.remove get?
  cases hplace : t.index.get? name with
  | none => rfl
  | some place =>
    rcases h.getElem?_of_place hplace with ⟨value, hvalue⟩
    simp [hvalue]

theorem Sound.listing_edit (h : t.Sound) (op : MemberOp) : (t.edit op).listing = t.listing.edit op := by
  cases op with
  | set name value => exact h.listing_set name value
  | remove name => exact h.listing_remove name

theorem Sound.listing_foldl (h : t.Sound) (ops : List MemberOp)
    : (ops.foldl MemberTable.edit t).listing = ops.foldl Table.edit t.listing := by
  induction ops generalizing t with
  | nil => rfl
  | cons op ops ih =>
    rw [List.foldl_cons, List.foldl_cons, ih (h.edit op), h.listing_edit]

theorem listing_after (ops : List MemberOp) : (after ops).listing = ops.foldl Table.edit .empty :=
  empty_sound.listing_foldl ops

theorem Sound.get?_set (h : t.Sound) (name : String) (value : Value) (other : String)
    : (t.set name value).get? other =
        if other = name then (if value.isUndefined then none else some value) else t.get? other := by
  rw [(h.set name value).get?_eq, h.listing_set, h.get?_eq]
  unfold Table.edit
  dsimp only
  split
  . rw [Table.get?_erase]
  . rw [Table.get?_put]

end MemberTable

theorem Members.get?_set (m : Members) (name : String) (value : Value) (other : String)
    : (Members.set m name value).get? other =
        if other = name then (if value.isUndefined then none else some value) else m.get? other :=
  m.sound.get?_set name value other

theorem Members.contains_eq (m : Members) (name : String) : m.contains name = (m.get? name).isSome := by
  rw [m.sound.contains_eq, m.sound.get?_eq]
  rfl

theorem Members.ofList_eq_after (pairs : List (String × Value))
    : (Members.ofList pairs).toMemberTable = .after (pairs.map fun e => .set e.1 e.2) := by
  have h (m : Members) : (pairs.foldl (fun m e => m.set e.1 e.2) m).toMemberTable =
      (pairs.map fun e => MemberOp.set e.1 e.2).foldl MemberTable.edit m.toMemberTable := by
    induction pairs generalizing m with
    | nil => rfl
    | cons e pairs ih => exact ih (m.set e.1 e.2)
  exact h .empty

/--
A member table is a table in the order of first definition: its names are distinct, no member is
`undefined`, and the index has the place of every name. What is read through the index is what a table
without one has. A member that is set stays in its place or goes to the end, one that is removed is
given back, and the other members keep their values and their order.
-/
theorem members_keep_definition_order (ops : List MemberOp)
    : let t := MemberTable.after ops
      let plain : Table Value := ops.foldl Table.edit .empty
      t.keys.Nodup ∧ (∀ e ∈ t.entries, e.2.isUndefined = false) ∧
      (∀ name i, t.index.get? name = some i ↔ ∃ value, t.entries[i]? = some (name, value)) ∧
      (t.entries = plain.entries ∧ t.keys = plain.keys ∧ t.size = plain.size ∧ t.isEmpty = plain.isEmpty ∧
        ∀ name, t.get? name = plain.get? name ∧ t.contains name = plain.contains name) ∧
      (∀ name value, value.isUndefined = false →
        (t.set name value).keys = (if t.contains name then t.keys else t.keys ++ [name]) ∧
        ∀ other, (t.set name value).get? other = if other = name then some value else t.get? other) ∧
      (∀ name, t.set name .undefined = (t.remove name).2 ∧ (t.remove name).1 = t.get? name ∧
        (t.remove name).2.entries = t.entries.filter (fun e => e.1 != name) ∧
        ∀ other, (t.remove name).2.get? other = if other = name then none else t.get? other) ∧
      ∀ pairs, (Members.ofList pairs).toMemberTable = .after (pairs.map fun e => .set e.1 e.2) := by
  intro t plain
  have h : t.Sound := MemberTable.after_sound ops
  have hplain : t.listing = plain := MemberTable.listing_after ops
  refine ⟨h.keys_nodup, h.defined, ?_, ?_, ?_, ?_, Members.ofList_eq_after⟩
  . intro name i
    rw [h.places, MemberTable.keys, List.getElem?_map]
    cases t.entries[i]? <;> simp [Prod.ext_iff]
  . rw [← hplain]
    exact ⟨rfl, rfl, rfl, rfl, fun name => ⟨h.get?_eq name, h.contains_eq name⟩⟩
  . intro name value hvalue
    have hlisting : (t.set name value).listing = t.listing.put name value := by
      rw [h.listing_set, Table.edit, if_neg (by simp [hvalue])]
    have hkeys : (t.set name value).keys = (t.listing.put name value).keys := by
      rw [← hlisting]
      rfl
    refine ⟨?_, ?_⟩
    . rw [hkeys, Table.keys_put, h.contains_eq]
      simp only [Table.contains, Table.get?_isSome_iff]
      rfl
    . intro other
      rw [(h.set name value).get?_eq, hlisting, Table.get?_put, h.get?_eq]
  . intro name
    have hlisting := h.listing_remove name
    refine ⟨rfl, h.remove_fst name, congrArg Table.entries hlisting, ?_⟩
    intro other
    rw [(h.remove name).get?_eq, hlisting, Table.get?_erase, h.get?_eq]

/-- Members that are set, written again and removed in between. -/
theorem members_keep_first_place
    : let ops : List MemberOp :=
        [.set "b" (.int 1), .set "a" (.int 2), .set "c" (.int 3), .set "b" (.int 4), .remove "a",
          .set "d" .nil]
      let t := MemberTable.after ops
      t.keys = ["b", "c", "d"] ∧ t.index.get? "c" = some 1 ∧ t.keys.Nodup ∧ Value.nil.isUndefined = false ∧
        (t.set "c" .nil).keys = t.keys ∧ (t.remove "b").1 = t.get? "b" ∧
        (t.remove "b").2.get? "d" = t.get? "d" := by
  intro ops t
  have h := members_keep_definition_order ops
  refine ⟨by decide, by decide, h.1, rfl, ?_, ?_, ?_⟩
  . exact (h.2.2.2.2.1 "c" .nil rfl).1
  . exact (h.2.2.2.2.2.1 "b").2.1
  . exact (h.2.2.2.2.2.1 "b").2.2.2 "d"

end ScriptEngine
